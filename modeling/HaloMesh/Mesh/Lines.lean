import HaloMesh.Mesh.Basic

/-! Lines of a field along an axis. A line is given by the flat index of its point zero and
the distance from point to point in the storage; a periodic line wraps its indices. -/

namespace HaloMesh

variable {α : Type}

/-- The distance in the storage between neighbours along an axis. -/
def Field.stride (f : Field α) : Axis → Int
  | .x => f.ny * f.nz
  | .y => f.nz
  | .z => 1

/-- The number of points of a field along an axis. -/
def Field.axisSize (f : Field α) : Axis → Int
  | .x => f.nx
  | .y => f.ny
  | .z => f.nz

/-- One line and the points on it that are worked on. -/
structure LineSpan where
  base : Int
  lo : Int
  hi : Int
deriving DecidableEq, Repr

/-- How the points of a line are read: their distance, and the length of a periodic line. -/
structure LineReader where
  stride : Int
  period : Option Int
deriving DecidableEq, Repr

namespace LineReader

/-- The flat index of point `j` of a line. -/
def position (r : LineReader) (base j : Int) : Int :=
  match r.period with
  | some n => base + j % n * r.stride
  | none => base + j * r.stride

def read (r : LineReader) (data : Array α) (base j : Int) : Outcome α :=
  elementAt data (r.position base j)

end LineReader

/-- Computes the points of every line and writes them, line after line. -/
def sweep (stride : Int) (lines : List LineSpan) (value : Int → Int → Outcome (Option α))
    (data : Array α) : Outcome (Array α) :=
  let points := lines.flatMap fun l => (Index.span l.lo l.hi).map fun i => (l.base, i)
  points.foldlM (fun data ((base, i) : Int × Int) => do
    match ← value base i with
    | some v => Field.writeAt data (base + i * stride) v
    | none => return data) data

/-- The bases of all lines of a field along an axis. -/
def Field.lineBases (f : Field α) (axis : Axis) : List Int :=
  match axis with
  | .x => (List.range f.ny).flatMap fun (y : Nat) =>
      (List.range f.nz).map fun (z : Nat) => (z : Int) + f.nz * y
  | .y => (List.range f.nx).flatMap fun (x : Nat) =>
      (List.range f.nz).map fun (z : Nat) => (z : Int) + f.nz * f.ny * x
  | .z => (List.range f.nx).flatMap fun (x : Nat) =>
      (List.range f.ny).map fun (y : Nat) => (f.nz : Int) * (y + f.ny * x)

/-- The lines a derivative is evaluated on: the interior points along x and y for all
others, and whole lines along z for the interior columns, or for all if guard columns
are included. -/
def Mesh.evaluationLines (m : Mesh α) (f : Field α) (axis : Axis) (includeXGuards : Bool) :
    List LineSpan :=
  match axis with
  | .x => (f.lineBases .x).map fun base => ⟨base, m.xstart, m.xend⟩
  | .y => (f.lineBases .y).map fun base => ⟨base, m.ystart, m.yend⟩
  | .z =>
    let (xs, xe) : Int × Int :=
      if includeXGuards then (0, (f.nx : Int) - 1) else (m.xstart, m.xend)
    (Index.span xs xe).flatMap fun x => (List.range f.ny).map fun (y : Nat) =>
      ⟨(f.nz : Int) * (y + f.ny * x), 0, (f.nz : Int) - 1⟩

/-- Every line with points that a derivative is evaluated on takes a value at least, so there
cannot be more of these lines than values. -/
def Mesh.checkLines (m : Mesh α) (f : Field α) (axis : Axis) (includeXGuards : Bool) :
    Outcome Unit :=
  let lines :=
    match axis with
    | .x => if m.xstart ≤ m.xend then f.ny * f.nz else 0
    | .y => if m.ystart ≤ m.yend then f.nx * f.nz else 0
    | .z => (if includeXGuards then f.nx else (m.xend + 1 - m.xstart).toNat) * f.ny
  if lines ≤ f.data.size then .ok () else Outcome.outOfRange

end HaloMesh
