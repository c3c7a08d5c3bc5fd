import HaloMesh.Mesh.Basic
import HaloMesh.Metric.Coordinates

/-! The metric point by point: its inverse, its jacobian, and what a usable metric has to
satisfy. -/

namespace HaloMesh

variable {α : Type}

/-- The value stored at a flat index, zero beyond the end. -/
def Field.valueAt [Scalar α] (f : Field α) (n : Nat) : α := (f.data[n]?).getD 0

/-- The values at `z = 0`, column after column: all there is of a quantity constant in z. -/
def Field.plane [Scalar α] (f : Field α) : List α :=
  (List.range f.nx).flatMap fun x => (List.range f.ny).map fun y =>
    f.valueAt (f.nz * (y + f.ny * x))

/-- A field of another one's shape, location and alignment from a function of the flat
index. -/
def Field.tabulate (like : Field α) (g : Nat → α) : Field α :=
  { like with
    data := Array.ofFn fun n : Fin like.data.size => g n
    data_size := by rw [Array.size_ofFn, like.data_size] }

/-- A symmetric tensor as a matrix. -/
def Symmetric.toMatrix (s : Symmetric α) : Matrix3 α :=
  ⟨⟨s.c11, s.c12, s.c13⟩, ⟨s.c12, s.c22, s.c23⟩, ⟨s.c13, s.c23, s.c33⟩⟩

/-- The components of a tensor from the upper triangle of a matrix. -/
def Matrix3.upperTriangle (a : Matrix3 α) : Symmetric α :=
  { c11 := a.r0.x, c22 := a.r1.y, c33 := a.r2.z, c12 := a.r0.y, c13 := a.r0.z, c23 := a.r1.z }

variable [Scalar α]

/-- The components of a tensor field at one flat index. -/
def Symmetric.pointAt (s : Symmetric (Field α)) (n : Nat) : Symmetric α :=
  Symmetric.ofFunction fun p => (s.get p).valueAt n

namespace Symmetric

/-- A matrix whose condition passes this number counts as singular. -/
def conditionLimit : α := 1e16

/-- The largest deviation from one that a matrix times its inverse may have. -/
def inverseTolerance : α := 1e-10

/-- The inverse at one point and how far its product with the matrix is from one. -/
def invertPoint (x y : Nat) (s : Symmetric α) : Except Error (Symmetric α × α) :=
  let a := s.toMatrix
  match a.invert? with
  | none => .error (.singularMetric x y "+Inf")
  | some ⟨_, none⟩ => .error (.singularMetric x y "+Inf")
  | some ⟨inverse, some condition⟩ =>
    if Scalar.lt conditionLimit condition then
      .error (.singularMetric x y (Scalar.tableText condition))
    else .ok (inverse.upperTriangle, ((a.mul inverse).subOne).rowNorm)

/-- The inverse of a tensor field, from its first z plane and constant in z. The first
singular point is reported, and then an inverse that is not exact enough. -/
def inverse (s : Symmetric (Field α)) : Except Error (Symmetric (Field α)) := do
  let shape := s.c11
  let points := (List.range shape.nx).flatMap fun x => (List.range shape.ny).map fun y => (x, y)
  let solved ← points.mapM fun (x, y) =>
    invertPoint x y (s.pointAt (shape.nz * (y + shape.ny * x)))
  let worst : α :=
    solved.foldl (fun (worst : α) (_, e) => if Scalar.lt worst e then e else worst) 0
  if Scalar.lt inverseTolerance worst then throw (.inexactInverse (Scalar.text worst))
  let solved := solved.toArray
  return Symmetric.ofFunction fun p => shape.tabulate fun n =>
    ((solved[n / shape.nz]?).map fun (t, _) => t.get p).getD 0

/-- The determinant at one point. -/
def determinant (s : Symmetric α) : α :=
  s.c11 * s.c22 * s.c33 + 2 * s.c12 * s.c13 * s.c23 - s.c11 * s.c23 * s.c23 -
    s.c22 * s.c13 * s.c13 - s.c33 * s.c12 * s.c12

/-- The jacobian of a contravariant metric. -/
def jacobian (s : Symmetric (Field α)) : Field α :=
  s.c11.tabulate fun n => 1 / Scalar.sqrt (s.pointAt n).determinant

end Symmetric

/-- The largest difference between two fields, relative to the second. -/
def Field.relativeDifference (f g : Field α) : α :=
  (List.range f.data.size).foldl (fun (worst : α) n =>
    let a := f.valueAt n
    let b := g.valueAt n
    let d := Scalar.abs (a - b) / Scalar.maximum (Scalar.abs b) 1e-300
    if Scalar.lt worst d then d else worst) 0

namespace Coordinates

/-- What is wrong with the value of a quantity at a point, if anything. -/
def defect? (q : Quantity) (x y : Int) (v : α) : Option Error :=
  if Scalar.isUndefined v || Scalar.isInfinite v then some (.notFinite q.name x y)
  else if q.isPositive && Scalar.le v 0 then some (.notPositive q.name x y (Scalar.text v))
  else if q = .jacobian && Scalar.same v 0 then some (.zeroJacobian x y)
  else none

/-- The metric has to be finite over the interior, with a positive diagonal and a jacobian
that is not zero. Quantities are checked one after the other, each column by column. -/
def check (c : Coordinates α) (m : Mesh α) : Outcome Unit :=
  let cells := (Index.span m.xstart m.xend).flatMap fun x =>
    (Index.span m.ystart m.yend).map fun y => (x, y)
  Quantity.metric.forM fun q => cells.forM fun (x, y) => do
    match defect? q x y (← (c.get q).get x y 0) with
    | some e => Outcome.fail e
    | none => return ()

/-- The covariant metric from the contravariant one. -/
def lowerMetric (c : Coordinates α) : Except Error (Coordinates α) := do
  return { c with covariant := ← c.contravariant.inverse }

/-- The contravariant metric from the covariant one. -/
def raiseMetric (c : Coordinates α) : Except Error (Coordinates α) := do
  return { c with contravariant := ← c.covariant.inverse }

end Coordinates

end HaloMesh
