import HaloMesh.Index.Span
import HaloMesh.Index.Word

/-! Blocks of guard cells on one side of a local block, either a seam that is filled by
communication or a physical boundary. A region is walked along y first, then x. -/

namespace HaloMesh

inductive RegionSide where
  | xin | xout | ydown | yup
deriving DecidableEq, Repr

namespace RegionSide

def all : List RegionSide := [xin, xout, ydown, yup]

def name : RegionSide → String
  | xin => "xin"
  | xout => "xout"
  | ydown => "ydown"
  | yup => "yup"

def ofCode? (n : Nat) : Option RegionSide := all[n]?

/-- The sides with guard columns rather than guard rows. -/
def isX : RegionSide → Bool
  | xin => true
  | xout => true
  | _ => false

end RegionSide

inductive RegionKind where
  | seam | boundary
deriving DecidableEq, Repr

namespace RegionKind

def name : RegionKind → String
  | seam => "seam"
  | boundary => "boundary"

/-- Every code but one stands for a seam. -/
def ofCode (n : Nat) : RegionKind := if n = 1 then boundary else seam

end RegionKind

/-- A rectangle of cells with inclusive ends, the outward direction, the rank across a
seam, and the cell a walk over the region stands at. -/
structure Region where
  label : String
  side : RegionSide
  kind : RegionKind
  destination : Option Int
  xs : Int
  xe : Int
  ys : Int
  ye : Int
  outX : Int := 0
  outY : Int := 0
  x : Int := 0
  y : Int := 0
deriving DecidableEq, Repr

namespace Region

def isBoundary (r : Region) : Bool := decide (r.kind = .boundary)

def isEmpty (r : Region) : Bool := decide (r.xe < r.xs) || decide (r.ye < r.ys)

/-- The number of cells. -/
def count (r : Region) : Int := if r.isEmpty then 0 else (r.xe - r.xs + 1) * (r.ye - r.ys + 1)

/-- The number of cells as a word. -/
def size (r : Region) : Int := Index.wrap r.count

def isDone (r : Region) : Bool := decide (r.xe < r.x)

/-- To the first cell; an empty region is done at once. -/
def restart (r : Region) : Region :=
  { r with x := if r.isEmpty then Index.next r.xe else r.xs, y := r.ys }

/-- To the next cell. -/
def advance (r : Region) : Region :=
  if r.isDone then r
  else if r.ye < Index.next r.y then { r with x := Index.next r.x, y := r.ys }
  else { r with y := Index.next r.y }

def contains (r : Region) (x y : Int) : Bool :=
  decide (r.xs ≤ x) && decide (x ≤ r.xe) && decide (r.ys ≤ y) && decide (y ≤ r.ye)

/-- The cells met in at most `steps` steps. -/
def collect : (steps : Nat) → Region → List (Int × Int)
  | 0, _ => []
  | steps + 1, r => if r.isDone then [] else (r.x, r.y) :: collect steps r.advance

/-- Every cell in walking order. -/
def cells (r : Region) : List (Int × Int) := r.restart.collect r.count.toNat

end Region

end HaloMesh
