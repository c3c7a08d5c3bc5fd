import HaloMesh.Error
import HaloMesh.Index.Word
import HaloMesh.Scalar

/-! A run of cells split into consecutive pieces whose sizes differ by at most one, the
larger pieces first. The piece that holds a cell is found by walking from a guess. -/

namespace HaloMesh.Index

/-- The cells from `start` up to but not including `stop`. -/
structure Piece where
  start : Int
  stop : Int
deriving DecidableEq, Repr

namespace Piece

def size (p : Piece) : Int := p.stop - p.start

def contains (p : Piece) (i : Int) : Bool := decide (p.start ≤ i) && decide (i < p.stop)

end Piece

structure Partition where
  parts : Nat
  total : Int
  positive : 0 < parts
deriving DecidableEq, Repr

namespace Partition

/-- A partition needs at least one piece, and storage for the two ends of each. -/
def make (parts total : Int) : Outcome Partition :=
  if positive : 0 < parts then
    if storageLimit < 2 * parts then Outcome.outOfRange
    else .ok { parts := parts.toNat, total, positive := by omega }
  else Outcome.raise (.partitionCount parts)

/-- The cells every piece has, and how many are left over. -/
def share (p : Partition) : Int := p.total.tdiv p.parts

def surplus (p : Partition) : Int := p.total.tmod p.parts

/-- The leftover cells go to the first pieces, one to each. -/
def piece (p : Partition) (k : Nat) : Piece :=
  let (shift, extra) : Int × Int :=
    if p.surplus = 0 then (0, 0)
    else if p.surplus < (k : Int) + 1 then (p.surplus, 0)
    else ((k : Int), 1)
  let start := (k : Int) * p.share + shift
  ⟨start, start + p.share + extra⟩

def pieces (p : Partition) : List Piece := (List.range p.parts).map p.piece

/-- The piece of a number that may name none. -/
def range (p : Partition) (k : Int) : Outcome Piece :=
  if 0 ≤ k ∧ k < p.parts then .ok (p.piece k.toNat) else Outcome.outOfRange

/-- The last piece, which is the smallest. -/
def lastPiece (p : Partition) : Piece := p.piece (p.parts - 1)

/-- The guess of a mean piece size: a quotient of double precision numbers, of which the first
comes from a product of words. -/
def guess (p : Partition) (i : Int) : Int :=
  Scalar.truncate ((Scalar.ofInt (wrap (p.parts * i)) : Float) / Scalar.ofInt p.total)

/-- Walks from piece to piece towards cell `i`. -/
def search (p : Partition) (i : Int) : (steps : Nat) → (k : Int) → Outcome Nat
  | 0, _ => Outcome.outOfRange
  | steps + 1, k =>
    if 0 ≤ k ∧ k < p.parts then
      let piece := p.piece k.toNat
      if piece.contains i then .ok k.toNat
      else search p i steps (if i < piece.start then k - 1 else k + 1)
    else Outcome.outOfRange

/-- The piece that holds cell `i`, none for a cell outside the run. -/
def owner (p : Partition) (i : Int) : Outcome (Option Nat) :=
  if i < 0 ∨ p.total ≤ i then .ok none
  else (p.search i (p.parts + 1) (p.guess i)).map some

end Partition

end HaloMesh.Index
