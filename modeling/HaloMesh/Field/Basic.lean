import HaloMesh.Difference.Window
import HaloMesh.Index.Span
import HaloMesh.Index.Word

/-! A scalar over a block of cells. Values are stored with z fastest, then y, then x. An index
is only checked against the whole storage: one step off the end of a column reads the
next column. Arithmetic gives new fields and combines only fields of one shape, location
and alignment. -/

namespace HaloMesh

structure Field (α : Type) where
  nx : Nat
  ny : Nat
  nz : Nat
  data : Array α
  loc : Location
  aligned : Bool
  /-- There is a value for every point, as words count points. -/
  data_size : (data.size : Int) = Index.wrap (nx * ny * nz : Nat)

namespace Field

variable {α : Type}

/-- Whether all points together are no more than there can be storage for, so that every
point has a value of its own. -/
def Fits (f : Field α) : Prop := ((f.nx * f.ny * f.nz : Nat) : Int) ≤ Index.storageLimit

instance (f : Field α) : Decidable f.Fits := inferInstanceAs (Decidable (_ ≤ _))

theorem size_of_fits {f : Field α} (fits : f.Fits) : f.data.size = f.nx * f.ny * f.nz := by
  have size := f.data_size
  have limit : Index.storageLimit < Text.wordEnd := by decide
  rw [Index.wrap_of_fits (by simp only [Text.wordEnd]; omega)
    (Int.lt_of_le_of_lt fits limit)] at size
  omega

/-- Going through all points takes a value for each of them. -/
def checkFits (f : Field α) : Outcome Unit := if f.Fits then .ok () else Outcome.outOfRange

def extents (f : Field α) : Extents := ⟨f.nx, f.ny, f.nz⟩

/-- A field of `f`'s shape, location and alignment with other values. -/
def withData (f : Field α) (data : Array α) : Outcome (Field α) :=
  if same : data.size = f.data.size then .ok { f with data, data_size := by rw [same, f.data_size] }
  else Outcome.outOfRange

/-- The same values tagged with another location. -/
def retag (f : Field α) (loc : Location) : Field α := { f with loc }

def setAligned (f : Field α) (aligned : Bool) : Field α := { f with aligned }

def map (f : Field α) (g : α → α) : Field α :=
  { f with data := f.data.map g, data_size := by simp [f.data_size] }

/-- Every point gets one value. -/
def fill (f : Field α) (v : α) : Field α := f.map fun _ => v

/-- A new field of one value. A field lives at a real location, the centre unless told
otherwise, has at least one point along every axis, and its values fit into storage. -/
def const (nx ny nz : Int) (v : α) (place : Placement) : Outcome (Field α) :=
  if nx < 1 ∨ ny < 1 ∨ nz < 1 then Outcome.raise (.fieldDimensions ⟨nx, ny, nz⟩)
  else
    match place.orElse .centre with
    | .real loc =>
      let n := Index.wrap (nx.toNat * ny.toNat * nz.toNat : Nat)
      if within : 0 ≤ n ∧ n ≤ Index.storageLimit then
        .ok
          { nx := nx.toNat, ny := ny.toNat, nz := nz.toNat
            data := Array.replicate n.toNat v
            loc, aligned := false
            data_size := by rw [Array.size_replicate, Int.toNat_of_nonneg within.1] }
      else Outcome.outOfRange
    | p => Outcome.raise (.storedAt p)

/-- The flat index of a point, a word of 64 bits. -/
def index (f : Field α) (x y z : Int) : Int := Index.wrap (z + f.nz * (y + f.ny * x))

def get (f : Field α) (x y z : Int) : Outcome α := elementAt f.data (f.index x y z)

/-- Writes one element of a list of values, which has to exist. -/
def writeAt (data : Array α) (i : Int) (v : α) : Outcome (Array α) :=
  if 0 ≤ i ∧ i < data.size then .ok (data.setIfInBounds i.toNat v) else Outcome.outOfRange

def set (f : Field α) (x y z : Int) (v : α) : Outcome (Field α) := do
  f.withData (← writeAt f.data (f.index x y z) v)

/-- The flat index at which the z line of a column starts. -/
def lineStart (f : Field α) (x y : Int) : Int := f.index x y 0

/-- The z line at `(x, y)`, which has to lie within the storage. -/
def zLine (f : Field α) (x y : Int) : Outcome (Array α) :=
  let i := f.lineStart x y
  if 0 ≤ i ∧ i + f.nz ≤ f.data.size then .ok (f.data.extract i.toNat (i.toNat + f.nz))
  else Outcome.outOfRange

/-- Writes consecutive values from `start` on. -/
def writeRun (data : Array α) (start : Nat) : List α → Array α
  | [] => data
  | v :: rest => writeRun (data.setIfInBounds start v) (start + 1) rest

@[simp] theorem size_writeRun (data : Array α) (start : Nat) (values : List α) :
    (writeRun data start values).size = data.size := by
  induction values generalizing data start with
  | nil => rfl
  | cons v rest ih => simp [writeRun, ih]

/-- Replaces the z line at `(x, y)`. -/
def setLine (f : Field α) (x y : Int) (line : List α) : Field α :=
  { f with
    data := writeRun f.data (f.lineStart x y).toNat line
    data_size := by simp [f.data_size] }

def sameShape (f g : Field α) : Bool := decide (f.extents = g.extents)

/-- Fields can be combined if they have one shape, location and alignment; the first
difference in this order is reported. -/
def checkCompatible (f g : Field α) (op : String) : Outcome Unit :=
  if !f.sameShape g then Outcome.raise (.shapesDiffer op f.extents g.extents)
  else if f.loc ≠ g.loc then Outcome.raise (.locationsDiffer op f.loc g.loc)
  else if f.aligned ≠ g.aligned then Outcome.raise (.alignmentsDiffer op)
  else .ok ()

def combine (f g : Field α) (op : String) (h : α → α → α) : Outcome (Field α) := do
  f.checkCompatible g op
  f.withData (Array.zipWith h f.data g.data)

/-- Takes over the values of a compatible field. -/
def copyFrom (f g : Field α) : Outcome (Field α) := do
  f.checkCompatible g "CopyFrom"
  f.withData g.data

/-- A copy at another location, which has to be a real one. -/
def atPlace (f : Field α) (place : Placement) : Outcome (Field α) :=
  match place with
  | .real loc => .ok (f.retag loc)
  | p => Outcome.raise (.storedAt p)

variable [Scalar α]

def zero (nx ny nz : Int) (place : Placement) : Outcome (Field α) := const nx ny nz 0 place

/-- Zeros in the shape, location and alignment of another field. -/
def zeroLike (f : Field α) : Field α := f.fill 0

/-- A new field of a function of the indices. -/
def ofFunction (nx ny nz : Int) (place : Placement) (g : Nat → Nat → Nat → α) :
    Outcome (Field α) := do
  let f ← zero nx ny nz place
  f.checkFits
  f.withData (((List.range f.nx).flatMap fun x => (List.range f.ny).flatMap fun y =>
    (List.range f.nz).map fun z => g x y z).toArray)

/-- A new field of given values, missing ones being zero. -/
def ofValues (nx ny nz : Int) (place : Placement) (values : List α) : Outcome (Field α) := do
  let f ← zero nx ny nz place
  f.withData (writeRun f.data 0 values)

def add (f g : Field α) : Outcome (Field α) := f.combine g "Add" (· + ·)

def sub (f g : Field α) : Outcome (Field α) := f.combine g "Sub" (· - ·)

def mul (f g : Field α) : Outcome (Field α) := f.combine g "Mul" (· * ·)

def div (f g : Field α) : Outcome (Field α) := f.combine g "Div" (· / ·)

def scale (f : Field α) (s : α) : Field α := f.map fun a => s * a

def addScalar (f : Field α) (s : α) : Field α := f.map fun a => a + s

def neg (f : Field α) : Field α := f.map fun a => -a

def sqrt (f : Field α) : Field α := f.map Scalar.sqrt

end Field

end HaloMesh
