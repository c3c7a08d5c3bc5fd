import HaloMesh.Difference.Table
import HaloMesh.Index.Span

/-! A linear kernel over a line of points as a square matrix. Without wrap-around the rows
nearer to an end than the kernel reaches stay empty: they belong to guard cells, which
the kernel is not evaluated on. -/

namespace HaloMesh

/-- A square matrix by rows. -/
structure SquareMatrix (α : Type) where
  size : Nat
  rows : Array (Array α)

namespace SquareMatrix

variable {α : Type} [Scalar α]

def zero (n : Nat) : SquareMatrix α :=
  ⟨n, (List.replicate n (List.replicate n (0 : α)).toArray).toArray⟩

def get (a : SquareMatrix α) (i j : Nat) : α := ((a.rows[i]?).bind (·[j]?)).getD 0

/-- Adds to one entry, which has to exist. -/
def addAt (a : SquareMatrix α) (i j : Int) (w : α) : Outcome (SquareMatrix α) :=
  if 0 ≤ i ∧ i < a.size ∧ 0 ≤ j ∧ j < a.size then
    .ok { a with
      rows := a.rows.modify i.toNat fun row => row.modify j.toNat fun v => v + w }
  else Outcome.outOfRange

/-- The product with a vector of the same size. -/
def apply (a : SquareMatrix α) (f : Array α) : Outcome (Array α) :=
  if f.size = a.size ∧ 0 < a.size then
    .ok (a.rows.map fun row =>
      ((row.zip f).foldl (fun s (w, v) => s + w * v) 0))
  else Outcome.outOfRange

end SquareMatrix

namespace Kernel

variable {α : Type} [Scalar α]

/-- Where the five weights of a window lie relative to the output point. A staggered
kernel gives the value half a cell down, where the upper neighbour shares the index of
the output point. -/
def inputOffsets (staggered : Bool) : List Int :=
  if staggered then [-2, -1, 0, 0, 1] else [-2, -1, 0, 1, 2]

/-- The entries of the matrix: row, column and weight. -/
def matrixEntries (k : Kernel α) (formula : Window α → α) (n : Nat) (periodic : Bool) :
    List (Int × Int × α) :=
  let (first, last) : Int × Int :=
    if periodic then (0, (n : Int) - 1) else ((k.width : Int), (n : Int) - 1 - k.width)
  let weighted := (inputOffsets k.family.staggered).zip (weights formula)
  (Index.span first last).flatMap fun i =>
    (weighted.filter fun (_, w) => !Scalar.same w 0).map fun (offset, w) =>
      (i, if periodic then (i + offset) % (n : Int) else i + offset, w)

/-- The matrix of a linear kernel over `n` points. -/
def matrix (k : Kernel α) (n : Int) (periodic : Bool) : Outcome (SquareMatrix α) :=
  match k.isLinear, k.formula with
  | true, .derivative formula =>
    if n < 0 then Outcome.outOfRange
    else
      (matrixEntries k formula n.toNat periodic).foldlM
        (fun a (i, j, w) => a.addAt i j w) (SquareMatrix.zero n.toNat)
  | _, _ => Outcome.fail (.notLinear k.method k.family)

end Kernel

end HaloMesh
