import HaloMesh.Field.Basic
import HaloMesh.Difference.Spectral

/-! Maps between the standard grid and the field aligned grid used for derivatives along the
field. A grid that is aligned already needs only the tag; a shifted grid moves each z
line by the local shift, mode by mode. How lines are taken apart into modes is left open at first,
and then settled as the fast transform. -/

namespace HaloMesh

/-- Shifts along z over a block, one for each `(x, y)`. -/
structure ShiftedMetric (α : Type) where
  extents : Extents
  zLength : α
  zShift : Array α

inductive ParallelTransform (α : Type) where
  | identity
  | shifted (metric : ShiftedMetric α)

variable {α : Type} [Scalar α] (transform : Nat → Outcome (Modes α))

/-- Moves every z line of a field: the new value at `z` is the old one at
`z + angle x y`, for a periodic z of the given length. A line whose angle is zero stays
untouched. -/
def Field.shiftZBy (f : Field α) (zLength : α) (angle : Nat → Nat → α) : Outcome (Field α) :=
  if f.nz = 1 then .ok f
  else do
    f.checkFits
    let modes ← transform f.nz
    let columns := (List.range f.nx).flatMap fun x => (List.range f.ny).map fun y => (x, y)
    columns.foldlM (fun (g : Field α) (x, y) => do
      let a := angle x y
      if Scalar.same a 0 then return g
      else
        let line ← g.zLine x y
        return g.setLine x y (modes.shift line (a / zLength)).toList) f

def Field.shiftZ (f : Field α) (zLength : α) (angle : Nat → Nat → α) : Outcome (Field α) :=
  f.shiftZBy Modes.ofLength zLength angle

namespace ShiftedMetric

/-- Takes the shifts from the first z plane of a field. -/
def make (zShift : Field α) (zLength : α) : Outcome (ShiftedMetric α) :=
  if Scalar.le zLength 0 then Outcome.raise (.zLength (Scalar.text zLength))
  else do
    zShift.checkFits
    let columns := (List.range zShift.nx).flatMap fun x =>
      (List.range zShift.ny).map fun y => (x, y)
    let shifts ← columns.mapM fun ((x, y) : Nat × Nat) => zShift.get x y 0
    return ⟨zShift.extents, zLength, shifts.toArray⟩

def shiftBy (m : ShiftedMetric α) (f : Field α) (sign : α) : Outcome (Field α) :=
  if f.extents ≠ m.extents then Outcome.raise (.transformExtents f.extents m.extents)
  else f.shiftZBy transform m.zLength fun x y => sign * (m.zShift[y + f.ny * x]?).getD 0

end ShiftedMetric

namespace ParallelTransform

def name : ParallelTransform α → String
  | identity => "identity"
  | shifted _ => "shifted"

def toAlignedBy (t : ParallelTransform α) (f : Field α) : Outcome (Field α) :=
  match t with
  | identity => .ok (f.setAligned true)
  | shifted m => do
    if f.aligned then Outcome.raise .alreadyAligned
    else
      let r ← m.shiftBy transform f (-1)
      return r.setAligned true

def fromAlignedBy (t : ParallelTransform α) (f : Field α) : Outcome (Field α) :=
  match t with
  | identity => .ok (f.setAligned false)
  | shifted m => do
    if !f.aligned then Outcome.raise .notAligned
    else
      let r ← m.shiftBy transform f 1
      return r.setAligned false

def toAligned (t : ParallelTransform α) (f : Field α) : Outcome (Field α) := t.toAlignedBy Modes.ofLength f

def fromAligned (t : ParallelTransform α) (f : Field α) : Outcome (Field α) := t.fromAlignedBy Modes.ofLength f

end ParallelTransform

end HaloMesh
