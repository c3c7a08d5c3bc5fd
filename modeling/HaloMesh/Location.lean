import HaloMesh.Text.Case
import HaloMesh.Text.Quoted

/-! The three axes of the grid and the places inside a cell where a quantity can live.
A stored quantity is always at a real location; a request for a location may also
leave the choice open or ask for the staggered layout of a vector. -/

namespace HaloMesh

inductive Axis where
  | x | y | z
deriving DecidableEq, Repr

namespace Axis

def all : List Axis := [x, y, z]

def name : Axis → String
  | x => "x"
  | y => "y"
  | z => "z"

def index : Axis → Nat
  | x => 0
  | y => 1
  | z => 2

def ofIndex? : Nat → Option Axis
  | 0 => some x
  | 1 => some y
  | 2 => some z
  | _ => none

/-- The name shown for an axis number. A number that names no axis is shown as a
failed look-up, so that a message about it can still be written. -/
def indexName (n : Nat) : String :=
  match ofIndex? n with
  | some axis => axis.name
  | none =>
    s!"%!s(PANIC=String method: runtime error: index out of range [{n}] with length 3)"

end Axis

/-- A real position within a cell: its centre, or half a cell down along one axis. -/
inductive Location where
  | centre | xlow | ylow | zlow
deriving DecidableEq, Repr

namespace Location

def all : List Location := [centre, xlow, ylow, zlow]

def name : Location → String
  | centre => "CELL_CENTRE"
  | xlow => "CELL_XLOW"
  | ylow => "CELL_YLOW"
  | zlow => "CELL_ZLOW"

/-- The axis a location is shifted along, none for the centre. -/
def staggerAxis : Location → Option Axis
  | centre => none
  | xlow => some .x
  | ylow => some .y
  | zlow => some .z

end Location

/-- The location half a cell down along an axis. -/
def Axis.low : Axis → Location
  | .x => .xlow
  | .y => .ylow
  | .z => .zlow

/-- Where a result is asked for: wherever the operand is, at a real location, or each
vector component half a cell down along its own axis. -/
inductive Placement where
  | inherit
  | real (loc : Location)
  | shifted
deriving DecidableEq, Repr

namespace Placement

def name : Placement → String
  | inherit => "CELL_DEFAULT"
  | .real loc => loc.name
  | shifted => "CELL_VSHIFT"

def code : Placement → Nat
  | inherit => 0
  | .real .centre => 1
  | .real .xlow => 2
  | .real .ylow => 3
  | .real .zlow => 4
  | shifted => 5

def ofCode? : Nat → Option Placement
  | 0 => some inherit
  | 1 => some (.real .centre)
  | 2 => some (.real .xlow)
  | 3 => some (.real .ylow)
  | 4 => some (.real .zlow)
  | 5 => some shifted
  | _ => none

/-- The name of a code, also of one that stands for no placement. -/
def codeName (n : Nat) : String :=
  match ofCode? n with
  | some p => p.name
  | none => s!"CellLoc({n})"

def isReal : Placement → Bool
  | .real _ => true
  | _ => false

/-- The placement asked of each vector component. -/
def expand : Placement → Placement × Placement × Placement
  | shifted => (.real .xlow, .real .ylow, .real .zlow)
  | p => (p, p, p)

def staggerAxis : Placement → Option Axis
  | .real loc => loc.staggerAxis
  | _ => none

/-- The location meant when an open choice falls back to `dflt`; the staggered
layout is no single location. -/
def orElse (p : Placement) (dflt : Location) : Placement :=
  match p with
  | inherit => .real dflt
  | _ => p

/-- Reads a label such as `xlow` or `CELL_XLOW`, blanks and case aside. -/
def ofLabel? (label : String) : Option Placement :=
  let key := Text.lower (Text.trimBlanks label)
  let key := if key.startsWith "cell_" then (key.drop 5).toString else key
  match key with
  | "default" => some inherit
  | "centre" => some (.real .centre)
  | "center" => some (.real .centre)
  | "xlow" => some (.real .xlow)
  | "ylow" => some (.real .ylow)
  | "zlow" => some (.real .zlow)
  | "vshift" => some shifted
  | _ => none

end Placement

end HaloMesh
