import HaloMesh.Operator.Derivative

/-! The operators of vector calculus on curvilinear coordinates: gradient, divergence, curl and
advection. Components are computed in the order x, y, z. -/

namespace HaloMesh.RankM

variable {α : Type} [Scalar α]

/-- The derivative along an axis with its result at a placement. -/
def alongAt (axis : Axis) (f : Field α) (place : Placement) : RankM α (Field α) :=
  derivative axis .first f { place }

/-- The covariant gradient with each component placed separately; a placement left open is
the field's own location. -/
def gradientAt (f : Field α) (px py pz : Placement) : RankM α (Vector3 (Field α)) := do
  let x ← alongAt .x f (px.orElse f.loc)
  let y ← alongAt .y f (py.orElse f.loc)
  let z ← alongAt .z f (pz.orElse f.loc)
  return ⟨x, y, z, true⟩

/-- The covariant gradient. -/
def gradient (f : Field α) (place : Placement) : RankM α (Vector3 (Field α)) :=
  let (px, py, pz) := place.expand
  gradientAt f px py pz

/-- Takes from a derivative its part along the field: `d - g dpar / (J B)^2`. -/
def withoutParallel (c : Coordinates α) (g d parallel : Field α) : Field α :=
  d.tabulate fun n =>
    let coefficient := 1 / (c.jacobian.valueAt n * c.bxy.valueAt n)
    d.valueAt n - coefficient * coefficient * g.valueAt n * parallel.valueAt n

/-- The gradient across the field; its y component is zero. -/
def perpendicularGradient (f : Field α) (px py pz : Placement) :
    RankM α (Vector3 (Field α)) := do
  let px := px.orElse f.loc
  let pz := pz.orElse f.loc
  let cx ← coordinatesAt px
  let cz ← coordinatesAt pz
  let dx ← alongAt .x f px
  let x := withoutParallel cx (cx.covariantAt .x .y) dx (← alongAt .y f (.real cx.loc))
  let y ← ofOutcome ((← mesh).zeroField (py.orElse f.loc))
  let dz ← alongAt .z f pz
  let z := withoutParallel cz (cz.covariantAt .y .z) dz (← alongAt .y f (.real cz.loc))
  return ⟨x, y, z, true⟩

/-- The contravariant components of a vector as its metric at the x component gives them. -/
def raised (v : Vector3 (Field α)) : RankM α (Vector3 (Field α)) := do
  toContravariant (← coordinatesAt (.real v.x.loc)) v

/-- The contravariant components times the jacobian, each with the one at its location. -/
def density (v : Vector3 (Field α)) : RankM α (Vector3 (Field α)) := do
  (← raised v).mapM fun f => do
    ofOutcome ((← coordinatesAt (.real f.loc)).jacobian.mul f)

/-- The sum of three fields divided by the jacobian at a location. -/
def overJacobian (f : Field α) (place : Placement) : RankM α (Field α) := do
  ofOutcome (f.dividedBy (← coordinatesAt place).jacobian)

/-- The divergence of a vector, at the cell centre unless told otherwise. -/
def divergence (v : Vector3 (Field α)) (place : Placement) : RankM α (Field α) := do
  let place := place.orElse .centre
  let d ← density v
  let x ← alongAt .x d.x place
  let y ← alongAt .y d.y place
  let xy ← ofOutcome (x.add y)
  let z ← alongAt .z d.z place
  overJacobian (← ofOutcome (xy.add z)) place

/-- The divergence of a vector times a field in conservative form. -/
def fluxDivergence (v : Vector3 (Field α)) (f : Field α) (s : Scheme) :
    RankM α (Field α) := do
  let s := { s with place := s.place.orElse .centre }
  let d ← density v
  let x ← flow .x .flux d.x f s
  let y ← flow .y .flux d.y f s
  let xy ← ofOutcome (x.add y)
  let z ← flow .z .flux d.z f s
  overJacobian (← ofOutcome (xy.add z)) s.place

/-- One component of a curl: the difference of two derivatives over the jacobian. -/
def curlComponent (axis : Axis) (f : Field α) (axis' : Axis) (g : Field α) (place : Placement) :
    RankM α (Field α) := do
  let a ← alongAt axis f place
  let b ← alongAt axis' g place
  overJacobian (← ofOutcome (a.sub b)) place

/-- The contravariant curl with each component placed separately. Where x derivatives are
shifted the torsion of the grid enters the z component. -/
def curlAt (v : Vector3 (Field α)) (px py pz : Placement) : RankM α (Vector3 (Field α)) := do
  let lowered ← toCovariant (← coordinatesAt (.real v.x.loc)) v
  let (lx, ly, lz) := (← ofOutcome v.location).expand
  let choose (p own : Placement) : Placement :=
    match p with
    | .inherit => own
    | p => p
  let px := choose px lx
  let py := choose py ly
  let pz := choose pz lz
  let x ← curlComponent .y lowered.z .z lowered.y px
  let y ← curlComponent .z lowered.x .x lowered.z py
  let z ← curlComponent .x lowered.y .y lowered.x pz
  if (← mesh).shape.shiftXderivs then
    let c ← coordinatesAt pz
    let vz ← ofOutcome (lowered.z.interpolate pz)
    let z := z.tabulate fun n =>
      z.valueAt n - c.shiftTorsion.valueAt n * vz.valueAt n / c.jacobian.valueAt n
    return ⟨x, y, z, false⟩
  else return ⟨x, y, z, false⟩

/-- The contravariant curl, where the vector is unless told otherwise. -/
def curl (v : Vector3 (Field α)) (place : Placement) : RankM α (Vector3 (Field α)) := do
  let place ←
    match place with
    | .inherit => ofOutcome v.location
    | p => pure p
  let (px, py, pz) := place.expand
  curlAt v px py pz

/-- A velocity stays staggered against a field along an axis where there are kernels for
that; any other moves to the field's location. -/
def advecting (v f : Field α) (axis : Axis) : RankM α (Field α) := do
  let staggered := (v.loc = axis.low && f.loc = .centre) || (v.loc = .centre && f.loc = axis.low)
  if v.loc = f.loc || ((← mesh).shape.staggerGrids && staggered) then return v
  else moved v f.loc

/-- Advection of a field by contravariant components. -/
def advectBy (v : Vector3 (Field α)) (f : Field α) (s : Scheme) : RankM α (Field α) := do
  let x ← flow .x .upwind (← advecting v.x f .x) f s
  let y ← flow .y .upwind (← advecting v.y f .y) f s
  let xy ← ofOutcome (x.add y)
  let z ← flow .z .upwind (← advecting v.z f .z) f s
  ofOutcome (xy.add z)

/-- The upwinded derivative of a field along a vector. -/
def advect (v : Vector3 (Field α)) (f : Field α) (s : Scheme) : RankM α (Field α) := do
  advectBy (← raised v) f s

/-- Adds a multiple of the product of three fields to a fourth, for each of its points. -/
def addTripleProduct (r : Field α) (sign : α) (a b c : Field α) : Outcome (Field α) :=
  if r.data.size ≤ a.data.size ∧ r.data.size ≤ b.data.size ∧ r.data.size ≤ c.data.size then
    .ok (r.tabulate fun n => r.valueAt n + sign * a.valueAt n * b.valueAt n * c.valueAt n)
  else Outcome.outOfRange

/-- One component of the derivative of a vector along contravariant components. The changing
basis adds `- v^j G^k_ji a_k` to a covariant component and `+ v^j G^i_jk a^k` to a
contravariant one. -/
def advectComponent (v a : Vector3 (Field α)) (s : Scheme) (i : Axis) :
    RankM α (Field α) := do
  let own := a.component i
  let c ← coordinatesAt (.real own.loc)
  let r ← advectBy v own s
  Axis.all.foldlM (fun r j => do
    let vj ← moved (v.component j) own.loc
    Axis.all.foldlM (fun r k => do
      let ak ← moved (a.component k) own.loc
      let (symbol, sign) : Field α × α :=
        if a.covariant then (c.symbolAt k j i, -1) else (c.symbolAt i j k, 1)
      ofOutcome (addTripleProduct r sign vj symbol ak)) r) r

/-- The derivative of a vector along another one. -/
def advectVector (v a : Vector3 (Field α)) (s : Scheme) : RankM α (Vector3 (Field α)) := do
  let v ← raised v
  let x ← advectComponent v a s .x
  let y ← advectComponent v a s .y
  let z ← advectComponent v a s .z
  return ⟨x, y, z, a.covariant⟩

end HaloMesh.RankM
