import HaloMesh.Proofs.BalancedPieces
import Mathlib.Data.List.Range

/-! The pieces of a partition as a whole, and the search for the owner of a cell. A search that starts at any piece, an
empty one at the end included, ends at the piece that holds the cell. It needs no more steps than there are pieces. -/

namespace HaloMesh.Index

/-- Pieces that cover the cells from 0 to `total` one after the other, the larger ones first, with sizes that differ by at
most one. -/
structure Balanced (pieces : List Piece) (total : Int) : Prop where
  begins : ∀ first ∈ pieces.head?, first.start = 0
  ends : ∀ last ∈ pieces.getLast?, last.stop = total
  joined : pieces.IsChain fun one next => one.stop = next.start
  forward : ∀ piece ∈ pieces, piece.start ≤ piece.stop
  falling : pieces.Pairwise fun one later => later.size ≤ one.size
  even : ∀ one ∈ pieces, ∀ other ∈ pieces, one.size ≤ other.size + 1

namespace Partition

variable {p : Partition} {i : Int}

theorem length_pieces (p : Partition) : p.pieces.length = p.parts := by
  rw [pieces, List.length_map, List.length_range]

theorem size_piece (nonneg : 0 ≤ p.total) (k : Nat) :
    (p.piece k).size = p.share + if (k : Int) < p.surplus then 1 else 0 := by
  rw [piece_eq nonneg, bound_succ nonneg]
  simp only [Piece.size]
  omega

theorem size_anti (nonneg : 0 ≤ p.total) {k l : Nat} (le : k ≤ l) : (p.piece l).size ≤ (p.piece k).size := by
  rw [size_piece nonneg, size_piece nonneg]
  split <;> split <;> omega

theorem balanced_pieces (nonneg : 0 ≤ p.total) : Balanced p.pieces p.total := by
  have positive := p.positive
  constructor
  case begins =>
    intro first head
    obtain rfl : p.piece 0 = first := by simpa [pieces, List.head?_range, Nat.ne_of_gt positive] using head
    rw [piece_eq nonneg, bound_zero nonneg]
  case ends =>
    intro last tail
    obtain rfl : p.piece (p.parts - 1) = last := by
      simpa [pieces, List.getLast?_range, Nat.ne_of_gt positive] using tail
    rw [piece_eq nonneg, Nat.sub_add_cancel positive, bound_parts]
  case joined =>
    rw [pieces, List.isChain_map, List.isChain_range]
    intro k _
    rw [piece_eq nonneg, piece_eq nonneg]
  case forward =>
    intro piece member
    obtain ⟨k, -, rfl⟩ := List.mem_map.mp member
    rw [piece_eq nonneg]
    exact bound_mono nonneg (Nat.le_succ k)
  case falling =>
    exact List.pairwise_map.mpr (List.pairwise_lt_range.imp fun less => size_anti nonneg (Nat.le_of_lt less))
  case even =>
    intro one first other second
    obtain ⟨k, -, rfl⟩ := List.mem_map.mp first
    obtain ⟨l, -, rfl⟩ := List.mem_map.mp second
    rw [size_piece nonneg, size_piece nonneg]
    split <;> split <;> omega

theorem owner_of_guess (start : 0 ≤ p.guess i) (stop : p.guess i < p.parts) (low : 0 ≤ i) (high : i < p.total) {k : Nat}
    (found : ∀ guess : Nat, guess < p.parts → ∀ steps, p.parts ≤ steps → p.search i steps guess = .ok k) :
    p.owner i = .ok (some k) := by
  obtain ⟨guess, same⟩ := Int.eq_ofNat_of_zero_le start
  rw [owner, if_neg (by omega), same, found guess (by omega) _ (Nat.le_succ _)]
  rfl

/-- The pieces of a run of cells are balanced. A cell of the run is in exactly one of them, and the search finds it from any
piece within as many steps as there are pieces, never asking for a piece that is none. So the owner is found when the guess
is a piece, as it is as long as double precision numbers hold all products. A cell outside the run has no owner. -/
theorem search_ends_at_owner (p : Partition) (nonneg : 0 ≤ p.total) :
    (make p.parts p.total = if storageLimit < 2 * (p.parts : Int) then Outcome.outOfRange else .ok p) ∧
      p.pieces.length = p.parts ∧ Balanced p.pieces p.total ∧
      (∀ i, 0 ≤ i → i < p.total → ∃ k < p.parts,
        (∀ l < p.parts, (p.piece l).start ≤ i ∧ i < (p.piece l).stop ↔ l = k) ∧
        (∀ guess < p.parts, ∀ steps, p.parts ≤ steps → p.search i steps guess = .ok k) ∧
        (0 ≤ p.guess i → p.guess i < p.parts → p.owner i = .ok (some k)) ∧
        (p.Exact → p.guess i = p.parts * i / p.total ∧ 0 ≤ p.guess i ∧ p.guess i < p.parts)) ∧
      ∀ i, i < 0 ∨ p.total ≤ i → p.owner i = .ok none := by
  refine ⟨?_, p.length_pieces, balanced_pieces nonneg, fun i low high => ?_, fun i outside => if_pos outside⟩
  · have positive : (0 : Int) < p.parts := by exact_mod_cast p.positive
    rw [make, dif_pos positive]
    rfl
  · obtain ⟨k, inside, after, before⟩ := exists_piece nonneg low high
    have found (guess : Nat) (within : guess < p.parts) (steps : Nat) (enough : p.parts ≤ steps) :
        p.search i steps guess = .ok k :=
      search_finds nonneg inside after before steps guess within ⟨by omega, by omega⟩
    refine ⟨k, inside, fun l _ => ?_, found, fun start stop => owner_of_guess start stop low high found, fun exact => ?_⟩
    · rw [piece_eq nonneg]
      refine ⟨fun holds => piece_unique nonneg holds.1 holds.2 after before, ?_⟩
      rintro rfl
      exact ⟨after, before⟩
    · exact ⟨exact.guess_eq low high, guess_range exact low high⟩

/-- Of five pieces of two cells three are empty. The search for the second cell comes back from the last one. -/
theorem search_ends_at_owner_sparse : ∃ p : Partition, p.parts = 5 ∧ p.total = 2 ∧ 0 ≤ p.total ∧ p.piece 4 = ⟨2, 2⟩ ∧
    p.search 1 5 4 = .ok 1 ∧ Balanced p.pieces p.total := by
  let p : Partition := ⟨5, 2, by decide⟩
  have nonneg : 0 ≤ p.total := by decide
  obtain ⟨-, -, balanced, found, -⟩ := search_ends_at_owner p nonneg
  obtain ⟨k, -, only, walk, -⟩ := found 1 (by decide) (by decide)
  obtain rfl : 1 = k := (only 1 (by decide)).mp (by decide)
  exact ⟨p, rfl, rfl, nonneg, by decide, walk 4 (by decide) 5 (by decide), balanced⟩

end Partition

end HaloMesh.Index
