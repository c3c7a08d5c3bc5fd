import HaloMesh.Scalar
import HaloMesh.Error

/-! Five neighbouring values of a field along one axis, and how they are read from a line.
Between a field and an output half a cell away the two inner neighbours straddle the
output point. -/

namespace HaloMesh

/-- The values two below, one below, at, one above and two above the output point. -/
structure Window (α : Type) where
  mm : α
  m : α
  c : α
  p : α
  pp : α
deriving DecidableEq, Repr

/-- Where the output lies relative to the input: at the same place, half a cell down
from centred input, or at the centre of input that lies half a cell down. -/
inductive Offset where
  | centred | toLow | toCentre
deriving DecidableEq, Repr

/-- The input indices of the two inner neighbours of output point `i`. -/
def Offset.neighbours (o : Offset) (i : Int) : Int × Int :=
  match o with
  | .centred => (i - 1, i + 1)
  | .toLow => (i - 1, i)
  | .toCentre => (i, i + 1)

namespace Window

variable {α : Type} [Scalar α]

/-- Reads the points within `width` of the output, the others stay zero. -/
def gatherAround {m : Type → Type} [Monad m] (get : Int → m α) (i : Int)
    (neighbours : Int × Int) (width : Int) : m (Window α) := do
  let (lo, hi) := neighbours
  let c ← get i
  if width < 1 then
    return ⟨0, 0, c, 0, 0⟩
  let below ← get lo
  let above ← get hi
  if width ≤ 1 then
    return ⟨0, below, c, above, 0⟩
  let below2 ← get (lo - 1)
  let above2 ← get (hi + 1)
  return ⟨below2, below, c, above, above2⟩

def gather {m : Type → Type} [Monad m] (get : Int → m α) (i : Int) (o : Offset)
    (width : Int) : m (Window α) :=
  gatherAround get i (o.neighbours i) width

/-- The window with a one in place `k`, counted from two below. -/
def unit (k : Int) : Window α :=
  let put (n : Int) : α := if k = n then 1 else 0
  ⟨put 0, put 1, put 2, put 3, put 4⟩

end Window

/-- One element of a line, which an index may miss. -/
def elementAt {α : Type} (values : Array α) (i : Int) : Outcome α :=
  if 0 ≤ i then
    match values[i.toNat]? with
    | some v => .ok v
    | none => Outcome.outOfRange
  else Outcome.outOfRange

end HaloMesh
