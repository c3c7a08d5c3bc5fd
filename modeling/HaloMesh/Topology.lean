import HaloMesh.Error
import HaloMesh.Index.Word

/-! How the rows of the global grid connect in y. Columns below the separatrix follow the inner
connections, the others the outer ones. A step that closes a field line on itself is a
twist: there the line may be rotated in z. -/

namespace HaloMesh

/-- A rectangle, open or periodic in y, or a lower single null. The null has an inner leg
up to row `leg1`, a core up to row `leg2` that closes on itself below the separatrix, and
an outer leg; the two legs join below the separatrix. -/
inductive Topology where
  | rectangular (ny : Int) (periodic : Bool)
  | singleNull (ny separatrix leg1 leg2 : Int)
deriving DecidableEq, Repr

/-- A neighbouring row and whether the step there is a twist. -/
structure RowStep where
  row : Option Int
  twist : Bool
deriving DecidableEq, Repr

namespace Topology

open Index (next previous)

/-- A single null has its legs in order and either both or none of them. -/
def makeSingleNull (ny separatrix leg1 leg2 : Int) : Except Error Topology :=
  if leg1 < -1 ∨ previous ny < leg2 ∨ leg2 ≤ leg1 then
    .error (.config (.separatrixRows leg1 leg2 ny))
  else if (0 ≤ leg1) ≠ (leg2 < previous ny) then .error (.config (.unpairedLegs leg1 leg2))
  else .ok (singleNull ny separatrix leg1 leg2)

def name : Topology → String
  | rectangular _ periodic => if periodic then "rectangular periodic" else "rectangular"
  | singleNull .. => "single null"

/-- The first global column of the outer side. -/
def separatrix : Topology → Int
  | rectangular .. => 0
  | singleNull _ ix _ _ => ix

/-- The row above. -/
def up (t : Topology) (j : Int) (inner : Bool) : RowStep :=
  match t with
  | rectangular ny periodic =>
    if j < previous ny then ⟨some (next j), false⟩
    else if periodic then ⟨some 0, true⟩
    else ⟨none, false⟩
  | singleNull ny _ leg1 leg2 =>
    if inner ∧ j = leg2 then ⟨some (next leg1), true⟩
    else if inner ∧ j = leg1 then ⟨some (next leg2), false⟩
    else if j = previous ny then ⟨none, false⟩
    else ⟨some (next j), false⟩

/-- The row below. -/
def down (t : Topology) (j : Int) (inner : Bool) : RowStep :=
  match t with
  | rectangular ny periodic =>
    if 0 < j then ⟨some (j - 1), false⟩
    else if periodic then ⟨some (previous ny), true⟩
    else ⟨none, false⟩
  | singleNull _ _ leg1 leg2 =>
    if inner ∧ j = next leg1 then ⟨some leg2, true⟩
    else if inner ∧ j = next leg2 then ⟨some leg1, false⟩
    else if j = 0 then ⟨none, false⟩
    else ⟨some (previous j), false⟩

/-- Whether a row lies in the core of a single null. -/
def inCore (leg1 leg2 j : Int) : Bool := decide (leg1 < j) && decide (j ≤ leg2)

/-- Whether the field line through column `x` and row `j` is closed. -/
def isPeriodic (t : Topology) (x j : Int) : Bool :=
  match t with
  | rectangular _ periodic => periodic
  | singleNull _ ix leg1 leg2 => decide (x < ix) && inCore leg1 leg2 j

/-- The number of rows on the field line through column `x` and row `j`. -/
def lineLength (t : Topology) (x j : Int) : Int :=
  match t with
  | rectangular ny _ => ny
  | singleNull ny ix leg1 leg2 =>
    if ix ≤ x then ny
    else if inCore leg1 leg2 j then leg2 - leg1
    else leg1 + 1 + ny - 1 - leg2

/-- The rows that start a new region; a block has to begin there. -/
def cuts : Topology → List Int
  | rectangular .. => []
  | singleNull ny _ leg1 leg2 =>
    (if 0 ≤ leg1 then [next leg1] else []) ++ (if leg2 < previous ny then [next leg2] else [])

end Topology

/-- One end of a block in y. Columns below the split go to one rank, the others to another;
where there is none the end is a physical boundary. -/
structure Link where
  inner : Option Int
  outer : Option Int
  innerTwist : Bool
  outerTwist : Bool
  split : Int
deriving DecidableEq, Repr

/-- The rank local column `x` is linked to. -/
def Link.destination (l : Link) (x : Int) : Option Int := if x < l.split then l.inner else l.outer

end HaloMesh
