import HaloMesh.Command.Decomposition
import HaloMesh.Difference.Matrix
import HaloMesh.Operator.Derivative

/-! A check of a decomposed grid on every rank: that the guard cells along seams get the right
values, that the two forms of the metric are inverse to each other, that the derivative of
a sine along z is near a cosine, and that the matrix of a derivative does what the
derivative does. -/

namespace HaloMesh

open Text (padLeft)

/-- What one rank found. -/
structure Verification (α : Type) where
  rank : Int
  guardCells : Nat
  mismatches : Nat
  /-- The largest deviation of the product of the two metrics from one. -/
  metricError : α
  /-- The largest errors of the derivative of a sine, by method. -/
  waveErrors : List (Method × α)
  /-- The largest difference between a matrix and its derivative. -/
  matrixError : α

variable {α : Type} [Scalar α]

namespace Mesh

/-- A field of a function of column and row, undefined in the cells of seams. -/
def seamField (m : Mesh α) (value : Int → Int → α) : Outcome (Field α) :=
  let seams := m.guardRegions.filter fun r => !r.isBoundary
  Field.ofFunction m.localNx m.localNy m.localNz (.real .centre) fun x y _ =>
    if seams.any fun r => r.contains x y then Scalar.undefined else value x y

/-- Whether a seam cell holds what it should: a value from its own column, counted around
the grid, and across x from its own row. -/
def seamCellFits (m : Mesh α) (r : Region) (x y : Int) (column row : α) : Bool :=
  let apart (a b : α) : Bool := Scalar.lt 1e-9 (Scalar.abs (a - b))
  let turned := Scalar.remainder (column - Scalar.ofInt (m.globalX x)) (Scalar.ofInt m.shape.mx)
  !Scalar.isUndefined column && !Scalar.isUndefined row && !apart turned 0 &&
    !(r.side.isX && apart row (Scalar.ofInt (m.globalY y)))

/-- The number of seam cells and of those that do not fit. -/
def countSeams (m : Mesh α) (columns rows : Field α) : Outcome (Nat × Nat) := do
  let seams := m.guardRegions.filter fun r => !r.isBoundary
  let cells := seams.flatMap fun r => r.cells.flatMap fun (x, y) =>
    (Index.span 0 (m.localNz - 1)).map fun z => (r, x, y, z)
  let fits ← cells.mapM fun (r, x, y, z) => do
    let column ← columns.get x y z
    let row ← rows.get x y z
    return m.seamCellFits r x y column row
  return (fits.length, (fits.filter (!·)).length)

/-- The largest difference of two fields over the interior. -/
def interiorDifference (m : Mesh α) (f g : Field α) : Outcome α := do
  let cells := (Index.span m.xstart m.xend).flatMap fun x =>
    (Index.span m.ystart m.yend).map fun y => (x, y)
  cells.foldlM (fun worst (x, y) => do
    let a ← f.zLine x y
    let b ← g.zLine x y
    return Scalar.maximum worst (Scalar.maxAbs (Array.zipWith (· - ·) a b).toList)) 0

/-- The wave number of one wave around z. -/
def waveNumber (m : Mesh α) : α := 2 * Scalar.pi / m.zLength

/-- The matrix of a method along z times every z line, against the derivative. -/
def matrixDifference (m : Mesh α) (f : Field α) (method : Method) : Outcome α := do
  let k : Kernel α ← (m.defaults.resolve .z ⟨.first, false⟩ method).mapError .returned
  let matrix ← k.matrix m.localNz true
  let r ← m.derivative .z .first f .inherit method false
  let cells := (Index.span m.xstart m.xend).flatMap fun x =>
    (Index.span m.ystart m.yend).map fun y => (x, y)
  cells.foldlM (fun worst (x, y) => do
    let product ← matrix.apply (← f.zLine x y)
    let line ← r.zLine x y
    return Scalar.maximum worst (Scalar.maxAbs (Array.zipWith (· - ·) product line).toList)) 0

end Mesh

/-- The product of the two metrics at one point and index pair, less one on the diagonal. -/
def Coordinates.productError (c : Coordinates α) (i j : Axis) (n : Nat) : α :=
  let sum := Axis.all.foldl (fun sum k =>
    sum + (c.contravariantAt i k).valueAt n * (c.covariantAt k j).valueAt n) 0
  if i = j then sum + -1 else sum

def Coordinates.metricError (c : Coordinates α) : α :=
  let pairs := Axis.all.flatMap fun i => Axis.all.map fun j => (i, j)
  pairs.foldl (fun worst (i, j) => Scalar.maximum worst
    (Scalar.maxAbs ((List.range c.dx.data.size).map (c.productError i j)))) 0

namespace RankM

/-- Exchanges the global column and row numbers over undefined seam cells and counts what
arrived. -/
def checkSeams : RankM α (Nat × Nat) := do
  let m ← mesh
  let columns ← ofOutcome (m.seamField fun x _ => Scalar.ofInt (m.globalX x))
  let rows ← ofOutcome (m.seamField fun _ y => Scalar.ofInt (m.globalY y))
  match ← exchanged [columns, rows] with
  | [columns, rows] => ofOutcome (m.countSeams columns rows)
  | _ => throw .outOfRange

/-- The error of the derivative of a sine along z by one method. -/
def waveError (method : Method) : RankM α α := do
  let m ← mesh
  let k := m.waveNumber
  let f ← ofOutcome (m.functionField (.real .centre) fun _ _ z => Scalar.sin (k * z))
  let wanted ← ofOutcome (m.functionField (.real .centre) fun _ _ z => k * Scalar.cos (k * z))
  ofOutcome (m.interiorDifference (← derivative .z .first f { method }) wanted)

/-- The methods whose waves are checked. -/
def waveMethods : List Method := [.c2, .c4, .fft]

/-- The methods whose matrices are checked. -/
def matrixMethods : List Method := [.c2, .c4]

/-- The whole check. -/
def verify : RankM α (Verification α) := do
  let m ← mesh
  let (guardCells, mismatches) ← checkSeams
  let c ← coordinatesAt .inherit
  let waveErrors ← waveMethods.mapM fun method => do return (method, ← waveError method)
  let k := m.waveNumber
  let f ← ofOutcome (m.functionField (.real .centre) fun x _ z => x * Scalar.sin (k * z))
  let matrixError ← ofOutcome (matrixMethods.foldlM (fun worst method => do
    return Scalar.maximum worst (← m.matrixDifference f method)) 0)
  return { rank := m.rank, guardCells, mismatches, metricError := c.metricError, waveErrors
           matrixError }

end RankM

/-- Checks every rank of a run. An error is told for the first rank that has one. -/
def verifyRanks (source : GridSource α) (options : Options α) (nproc : Int) :
    Outcome (List (Verification α)) := do
  let meshes ← decompose source options nproc
  let programs := meshes.map fun m => do
    let (r, _) ← (RankM.verify (α := α)).run.run (Rank.ofMesh m [])
    return r.mapError (Failure.onRank m.rank)
  let (results, _) := Transport.runAll Transport.MailBox.empty programs
  results.mapM id

namespace Verification

/-- A rank fails the check by a wrong guard cell or a matrix that is off. -/
def isBad (v : Verification α) : Bool :=
  decide (0 < v.mismatches) || Scalar.lt 1e-9 v.matrixError

def tableLine (v : Verification α) : String :=
  " ".intercalate ([padLeft 4 s!"{v.rank}", padLeft 8 s!"{v.guardCells}",
    padLeft 10 s!"{v.mismatches}", padLeft 12 (Scalar.tableText v.metricError)] ++
    (v.waveErrors.map fun e => padLeft 12 (Scalar.tableText e.2)) ++
    [padLeft 12 (Scalar.tableText v.matrixError)]) ++ "\n"

end Verification

/-- What all ranks found. -/
def verificationTable (reports : List (Verification α)) : String :=
  " ".intercalate ([padLeft 4 "rank", padLeft 8 "guards", padLeft 10 "mismatch",
    padLeft 12 "metric"] ++
    (RankM.waveMethods.map fun m => padLeft 12 s!"ddz {m.key}") ++ [padLeft 12 "matrix"]) ++
    "\n" ++ String.join (reports.map Verification.tableLine)

end HaloMesh
