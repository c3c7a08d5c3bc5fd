import HaloMesh.Metric.Geometry

/-! Raising and lowering the indices of vectors. Every component of the result lies where the
component it replaces does, and takes the metric there. -/

namespace HaloMesh

variable {α : Type} [Scalar α]

/-- Adds a product of fields, point by point, for as many points as the second factor has;
the others must not have fewer. -/
def addProducts (sum g v : Array α) : Outcome (Array α) :=
  if v.size ≤ sum.size ∧ v.size ≤ g.size then
    .ok (sum.mapIdx fun n s =>
      match v[n]?, g[n]? with
      | some b, some a => s + a * b
      | _, _ => s)
  else Outcome.outOfRange

namespace RankM

/-- The field at a location. -/
def moved (f : Field α) (loc : Location) : RankM α (Field α) :=
  ofOutcome (f.interpolate (.real loc))

/-- One component of a vector with its index raised or lowered by the metric that `metric`
takes from coordinates. -/
def convertComponent (c : Coordinates α) (metric : Coordinates α → Axis → Axis → Field α)
    (v : Vector3 (Field α)) (i : Axis) : RankM α (Field α) := do
  let own := v.component i
  let c ← if own.loc = c.loc then pure c else coordinatesAt (.real own.loc)
  let data ← Axis.all.foldlM (fun data j => do
    let vj ← moved (v.component j) own.loc
    ofOutcome (addProducts data (metric c i j).data vj.data)) own.zeroLike.data
  ofOutcome (own.withData data)

def convert (c : Coordinates α) (metric : Coordinates α → Axis → Axis → Field α)
    (v : Vector3 (Field α)) (covariant : Bool) : RankM α (Vector3 (Field α)) := do
  let x ← convertComponent c metric v .x
  let y ← convertComponent c metric v .y
  let z ← convertComponent c metric v .z
  return ⟨x, y, z, covariant⟩

/-- The covariant components of a vector. -/
def toCovariant (c : Coordinates α) (v : Vector3 (Field α)) : RankM α (Vector3 (Field α)) :=
  if v.covariant then pure v else convert c Coordinates.covariantAt v true

/-- The contravariant components of a vector. -/
def toContravariant (c : Coordinates α) (v : Vector3 (Field α)) :
    RankM α (Vector3 (Field α)) :=
  if v.covariant then convert c Coordinates.contravariantAt v false else pure v

end RankM

end HaloMesh
