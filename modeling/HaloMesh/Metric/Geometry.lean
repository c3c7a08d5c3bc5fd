import HaloMesh.Mesh.Derivative
import HaloMesh.Metric.Tensor
import HaloMesh.Rank

/-! What follows from a metric and its derivatives: the Christoffel symbols and the
coefficients of the Laplacian. The metric varies in x and y only. -/

namespace HaloMesh

variable {α : Type} [Scalar α]

/-- The symbol with lower indices `i` and `j` at one point, from the row `g` of the metric
with upper indices and the derivatives `d` of the one with lower indices:
`1/2 g^kl (d_i g_lj + d_j g_li - d_l g_ij)`. -/
def symbolValue (g : Axis → α) (d : Axis → Pair → α) (i j : Axis) : α :=
  Axis.all.foldl (fun sum l =>
    sum + 0.5 * g l * (d i (.of l j) + d j (.of l i) - d l (.of i j))) 0

namespace Coordinates

/-- The derivatives of the covariant metric along each axis. -/
def metricDerivatives (c : Coordinates α) (m : Mesh α) :
    Outcome (Triple (Symmetric (Field α))) := do
  let along (axis : Axis) (d : Field α) : Outcome (Symmetric (Field α)) :=
    Symmetric.ofFunctionM fun p => do
      let r ← m.derivative axis .first (c.covariant.get p) (.real c.loc) .standard false
      r.div d
  return ⟨← along .x c.dx, ← along .y c.dy, Symmetric.ofFunction fun p =>
    (c.covariant.get p).zeroLike⟩

/-- The Christoffel symbols with one upper index. -/
def symbolsAlong (c : Coordinates α) (d : Triple (Symmetric (Field α))) (k : Axis) :
    Symmetric (Field α) :=
  Symmetric.ofFunction fun p => c.contravariant.c11.tabulate fun n =>
    symbolValue (fun l => (c.contravariantAt k l).valueAt n)
      (fun axis q => ((d.get axis).get q).valueAt n) p.axes.1 p.axes.2

/-- The coefficient of the first derivative along an axis in the Laplacian,
`1/J d_j (J g^ij)`. -/
def laplacianAlong (c : Coordinates α) (m : Mesh α) (i : Axis) : Outcome (Field α) := do
  let along (j : Axis) (d : Field α) : Outcome (Field α) := do
    let f ← c.jacobian.mul (c.contravariantAt i j)
    let r ← m.derivative j .first f (.real c.loc) .standard false
    r.div d
  let sum ← (← along .x c.dx).add (← along .y c.dy)
  sum.div c.jacobian

/-- The coordinates with symbols and laplacian coefficients computed from their metric. -/
def withGeometry (c : Coordinates α) (m : Mesh α) : Outcome (Coordinates α) := do
  let d ← c.metricDerivatives m
  let symbols : Triple (Symmetric (Field α)) :=
    ⟨c.symbolsAlong d .x, c.symbolsAlong d .y, c.symbolsAlong d .z⟩
  let laplacian : Triple (Field α) :=
    ⟨← c.laplacianAlong m .x, ← c.laplacianAlong m .y, ← c.laplacianAlong m .z⟩
  return { c with symbols, laplacian }

end Coordinates

namespace RankM

/-- Coordinates with the guard cells of some quantities filled. -/
def exchangedQuantities (qs : List Quantity) (c : Coordinates α) : RankM α (Coordinates α) := do
  return c.setAll qs (← exchanged (qs.map c.get))

/-- Communicates and checks the metric, then computes what follows from it. Every step that
succeeded is kept, also if a later one fails. -/
def computeGeometry (keep : Coordinates α → RankM α Unit) (c : Coordinates α) :
    RankM α (Coordinates α) := do
  let m ← mesh
  let c ← labelled .communicatingMetric (exchangedQuantities Quantity.metric c)
  keep c
  ofOutcome (c.check m)
  let c ← ofOutcome (c.withGeometry m)
  keep c
  let c ← labelled .communicatingSymbols (exchangedQuantities Quantity.geometry c)
  keep c
  return c

/-- A field from the grid, or of the given value if the grid does not have it. -/
def gridField (name : String) (dflt : α) : RankM α (Field α) := do
  let (f, e) ← ofOutcome ((← mesh).getField name dflt)
  match e with
  | some e => if e.isA .notFound then return f else throw (.returned e)
  | none => return f

/-- A field from the grid that can also be computed: the grid wins, with a warning where
the two differ. -/
def gridOrComputed (name warning : String) (computed : Field α) : RankM α (Field α) := do
  let (f, e) ← ofOutcome ((← mesh).getField name 0)
  match e with
  | some e => if e.isA .notFound then return computed else throw (.returned e)
  | none =>
    if Scalar.lt 1e-6 (f.relativeDifference computed) then warn warning
    return f

/-- The metric at the cell centres as the grid gives it. -/
def readMetric : RankM α (Coordinates α) := do
  let m ← mesh
  let dx ← gridField "dx" 1
  let dy ← gridField "dy" 1
  let contravariant ← Symmetric.ofFunctionM fun p =>
    gridField (Quantity.contravariant p).name (if p.isDiagonal then 1 else 0)
  let shiftTorsion ← gridField "ShiftTorsion" 0
  let intShiftTorsion ← gridField "IntShiftTorsion" 0
  let covariant ← ofOutcome (contravariant.inverse.mapError .returned)
  let jacobian ←
    gridOrComputed "J" "Jacobian in grid differs from metric" contravariant.jacobian
  let computed ← ofOutcome (covariant.c22.sqrt.div jacobian)
  let bxy ← gridOrComputed "Bxy" "Bxy in grid differs from metric" computed
  let zeros := Symmetric.ofFunction fun _ => dx.zeroLike
  return {
    loc := .centre, dx, dy, dz := m.zLength / Scalar.ofInt m.localNz
    contravariant, covariant, jacobian, bxy, shiftTorsion, intShiftTorsion
    symbols := ⟨zeros, zeros, zeros⟩
    laplacian := ⟨dx.zeroLike, dx.zeroLike, dx.zeroLike⟩ }

/-- The metric at a staggered location, interpolated from the centre. The covariant metric
is computed anew. -/
def movedMetric (centre : Coordinates α) (loc : Location) : RankM α (Coordinates α) := do
  let move (f : Field α) : RankM α (Field α) := ofOutcome (f.interpolate (.real loc))
  let dx ← move centre.dx
  let dy ← move centre.dy
  let contravariant ← Symmetric.ofFunctionM fun p => move (centre.contravariant.get p)
  let jacobian ← move centre.jacobian
  let bxy ← move centre.bxy
  let shiftTorsion ← move centre.shiftTorsion
  let intShiftTorsion ← move centre.intShiftTorsion
  let moved : Coordinates α :=
    { centre with
      loc, dx, dy, contravariant, jacobian, bxy, shiftTorsion, intShiftTorsion }
  labelled (.coordinates loc) (ofOutcome (moved.lowerMetric.mapError .returned))

/-- The coordinates kept for a location. -/
def knownCoordinates? (loc : Location) : RankM α (Option (Coordinates α)) := do
  return ((← get).coordinates.find? fun e => e.1 = loc).map Prod.snd

/-- Keeps coordinates for their location. -/
def keepCoordinates (c : Coordinates α) : RankM α Unit :=
  modify fun r =>
    { r with coordinates := (c.loc, c) :: r.coordinates.filter fun e => e.1 ≠ c.loc }

/-- Makes the coordinates at the centre. -/
def makeCentre : RankM α (Coordinates α) := do
  labelled (.coordinates .centre) (computeGeometry (fun _ => pure ()) (← readMetric))

/-- The coordinates at the centre, made on first use. -/
def centreCoordinates : RankM α (Coordinates α) := do
  match ← knownCoordinates? .centre with
  | some c => return c
  | none =>
    let c ← makeCentre
    keepCoordinates c
    return c

/-- Makes the coordinates at a location, without keeping them. Those at a staggered location
come from the ones at the centre, which have to exist. -/
def makeCoordinates (place : Placement) : RankM α (Coordinates α) := do
  match place.orElse .centre with
  | .real .centre => makeCentre
  | .real loc =>
    let c ← movedMetric (← insist centreCoordinates) loc
    labelled (.coordinates loc) (computeGeometry (fun _ => pure ()) c)
  | p => throw (.returned (.coordinatesPlace p))

/-- The coordinates at a location, made on first use. -/
def loadCoordinates (place : Placement) : RankM α (Coordinates α) := do
  let known ←
    match place.orElse .centre with
    | .real loc => knownCoordinates? loc
    | _ => pure none
  match known with
  | some c => return c
  | none =>
    let c ← makeCoordinates place
    keepCoordinates c
    return c

/-- The coordinates at a location; it is a misuse if they cannot be made. -/
def coordinatesAt (place : Placement) : RankM α (Coordinates α) := insist (loadCoordinates place)

end RankM

end HaloMesh
