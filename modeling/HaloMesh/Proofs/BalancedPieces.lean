import HaloMesh.Index.Partition
import HaloMesh.Proofs.DoubleQuotient
import Mathlib.Algebra.Order.Ring.Int
import Mathlib.Tactic.Ring
import Mathlib.Tactic.Linarith

/-! The pieces of a partition follow one another without gaps, their sizes never grow and differ
by at most one, and the walk from any guess ends at the piece that holds the cell. -/

namespace HaloMesh.Index.Partition

/-- The cells before piece `k`, which is where it starts. -/
def bound (p : Partition) (k : Nat) : Int := k * p.share + min (k : Int) p.surplus

variable {p : Partition}

theorem share_nonneg (nonneg : 0 ≤ p.total) : 0 ≤ p.share := Int.tdiv_nonneg nonneg (Int.natCast_nonneg _)

theorem surplus_nonneg (nonneg : 0 ≤ p.total) : 0 ≤ p.surplus := Int.tmod_nonneg _ nonneg

theorem surplus_lt : p.surplus < p.parts := Int.tmod_lt_of_pos _ (by exact_mod_cast p.positive)

theorem piece_eq (nonneg : 0 ≤ p.total) (k : Nat) : p.piece k = ⟨p.bound k, p.bound (k + 1)⟩ := by
  have positive := surplus_nonneg nonneg
  have step : ((k + 1 : Nat) : Int) * p.share = k * p.share + p.share := by push_cast; ring
  simp only [piece, bound, step, Piece.mk.injEq]
  by_cases even : p.surplus = 0
  · simp only [even, ↓reduceIte]
    omega
  · by_cases beyond : p.surplus < (k : Int) + 1
    · simp only [even, beyond, ↓reduceIte]
      omega
    · simp only [even, beyond, ↓reduceIte]
      omega

theorem bound_zero (nonneg : 0 ≤ p.total) : p.bound 0 = 0 := by
  have := surplus_nonneg nonneg
  simp only [bound, Nat.cast_zero, Int.zero_mul]
  omega

theorem bound_parts : p.bound p.parts = p.total := by
  have less := p.surplus_lt
  have whole := Int.mul_tdiv_add_tmod p.total p.parts
  simp only [bound, share, surplus] at *
  rw [min_eq_right (by omega)]
  linarith

theorem bound_succ (nonneg : 0 ≤ p.total) (k : Nat) :
    p.bound (k + 1) = p.bound k + p.share + if (k : Int) < p.surplus then 1 else 0 := by
  have positive := surplus_nonneg nonneg
  have step : ((k + 1 : Nat) : Int) * p.share = k * p.share + p.share := by push_cast; ring
  simp only [bound, step]
  split <;> omega

theorem bound_mono (nonneg : 0 ≤ p.total) {k l : Nat} (le : k ≤ l) : p.bound k ≤ p.bound l := by
  induction le with
  | refl => exact Int.le_refl _
  | @step l _ ih =>
    have := share_nonneg nonneg
    rw [Nat.succ_eq_add_one, bound_succ nonneg l]
    split <;> omega

theorem lastPiece_size (p : Partition) : p.lastPiece.size = p.share := by
  have positive := p.positive
  have less := p.surplus_lt
  simp only [lastPiece, piece, Piece.size]
  by_cases even : p.surplus = 0
  · simp only [even, ↓reduceIte]
    omega
  · rw [if_neg even, if_pos (by omega)]
    omega

theorem total_pos (share : 1 ≤ p.share) : 1 ≤ p.total := by
  by_contra empty
  have opposite := Int.tdiv_nonneg (show 0 ≤ -p.total by omega) (Int.natCast_nonneg p.parts)
  rw [Int.neg_tdiv] at opposite
  simp only [Partition.share] at share
  omega

theorem share_le_size (nonneg : 0 ≤ p.total) (k : Nat) : p.share ≤ p.bound (k + 1) - p.bound k := by
  have := bound_succ nonneg k
  split at this <;> omega

theorem size_le_share (nonneg : 0 ≤ p.total) (k : Nat) : p.bound (k + 1) - p.bound k ≤ p.share + 1 := by
  have := bound_succ nonneg k
  split at this <;> omega

theorem exists_piece (nonneg : 0 ≤ p.total) {i : Int} (low : 0 ≤ i) (high : i < p.total) :
    ∃ k < p.parts, p.bound k ≤ i ∧ i < p.bound (k + 1) := by
  have below (l : Nat) (under : i < p.bound l) : ∃ k < l, p.bound k ≤ i ∧ i < p.bound (k + 1) := by
    induction l with
    | zero =>
      rw [bound_zero nonneg] at under
      omega
    | succ l ih =>
      by_cases earlier : i < p.bound l
      · obtain ⟨k, less, inside⟩ := ih earlier
        exact ⟨k, by omega, inside⟩
      · exact ⟨l, by omega, by omega, under⟩
  exact below p.parts (by rw [bound_parts]; exact high)

theorem piece_unique (nonneg : 0 ≤ p.total) {i : Int} {k l : Nat} (low : p.bound k ≤ i) (high : i < p.bound (k + 1))
    (low' : p.bound l ≤ i) (high' : i < p.bound (l + 1)) : k = l := by
  rcases Nat.lt_trichotomy k l with less | same | more
  · have := bound_mono nonneg (show k + 1 ≤ l by omega)
    omega
  · exact same
  · have := bound_mono nonneg (show l + 1 ≤ k by omega)
    omega

theorem contains_piece (nonneg : 0 ≤ p.total) (k : Nat) (i : Int) :
    (p.piece k).contains i = true ↔ p.bound k ≤ i ∧ i < p.bound (k + 1) := by
  simp [piece_eq nonneg, Piece.contains]

theorem search_sound (nonneg : 0 ≤ p.total) {i guess : Int} {steps k : Nat}
    (found : p.search i steps guess = .ok k) : k < p.parts ∧ p.bound k ≤ i ∧ i < p.bound (k + 1) := by
  induction steps generalizing guess with
  | zero => simp [search, Outcome.outOfRange] at found
  | succ steps ih =>
    simp only [search] at found
    split at found
    next inside =>
      split at found
      next holds =>
        obtain rfl : guess.toNat = k := by simpa using found
        exact ⟨by omega, (contains_piece nonneg _ _).mp holds⟩
      next => exact ih found
    next => simp [Outcome.outOfRange] at found

/-- From any piece the walk goes straight to the one that holds the cell. -/
theorem search_finds (nonneg : 0 ≤ p.total) {i : Int} {k : Nat} (inside : k < p.parts) (low : p.bound k ≤ i)
    (high : i < p.bound (k + 1)) (steps guess : Nat) (within : guess < p.parts)
    (enough : guess < k + steps ∧ k < guess + steps) : p.search i steps guess = .ok k := by
  induction steps generalizing guess with
  | zero => omega
  | succ steps ih =>
    have range : (0 : Int) ≤ guess ∧ (guess : Int) < p.parts := by omega
    simp only [search, range, and_self, ↓reduceIte, Int.toNat_natCast]
    by_cases here : guess = k
    · subst here
      rw [if_pos ((contains_piece nonneg _ _).mpr ⟨low, high⟩)]
    · have other : ¬ (p.piece guess).contains i = true := fun holds =>
        here (piece_unique nonneg ((contains_piece nonneg _ _).mp holds).1
          ((contains_piece nonneg _ _).mp holds).2 low high)
      rw [if_neg other]
      simp only [piece_eq nonneg]
      by_cases above : k < guess
      · have := bound_mono nonneg (show k + 1 ≤ guess by omega)
        rw [if_pos (by omega)]
        have down : (guess : Int) - 1 = (guess - 1 : Nat) := by omega
        rw [down]
        exact ih _ (by omega) (by omega)
      · have := bound_mono nonneg (show guess ≤ k by omega)
        rw [if_neg (by omega)]
        have up : (guess : Int) + 1 = (guess + 1 : Nat) := by omega
        rw [up]
        exact ih _ (by omega) (by omega)

/-- Whether double precision numbers hold all products of a cell and the number of pieces. -/
def Exact (p : Partition) : Prop := (p.parts : Int) * p.total ≤ (Nat.pow 2 53 : Nat)

/-- The guess is the integer part of the exact mean as long as double precision numbers hold all products. -/
theorem Exact.guess_eq (exact : p.Exact) {i : Int} (low : 0 ≤ i) (high : i < p.total) : p.guess i = p.parts * i / p.total := by
  have positive := p.positive
  obtain ⟨cell, rfl⟩ := Int.eq_ofNat_of_zero_le low
  obtain ⟨total, same⟩ := Int.eq_ofNat_of_zero_le (show 0 ≤ p.total by omega)
  simp only [Exact, same, Nat.pow_eq] at exact high
  have products : p.parts * cell < p.parts * total := Nat.mul_lt_mul_of_pos_left (by exact_mod_cast high) positive
  have limit : p.parts * total ≤ 2 ^ 53 := by exact_mod_cast exact
  have word : wrap (p.parts * cell) = (p.parts * cell : Nat) := by
    push_cast
    refine wrap_of_fits ?_ ?_ <;> rw [wordEnd_eq] <;> norm_cast <;> omega
  have quotient := Double.whole_quotient (a := p.parts * cell) (b := total) (by omega) (by omega)
    (Nat.le_trans (Nat.le_mul_of_pos_left _ positive) limit)
  rw [guess, word, same]
  exact quotient.trans (by push_cast; rfl)

theorem guess_range (exact : p.Exact) {i : Int} (low : 0 ≤ i) (high : i < p.total) :
    0 ≤ p.guess i ∧ p.guess i < p.parts := by
  have positive : (0 : Int) < p.parts := by exact_mod_cast p.positive
  have total : 0 < p.total := by omega
  rw [exact.guess_eq low high]
  refine ⟨Int.ediv_nonneg (by positivity) (by omega), ?_⟩
  rw [Int.ediv_lt_iff_lt_mul total]
  exact mul_lt_mul_of_pos_left high positive

/-- Whether the guess always names a piece. -/
def Aimed (p : Partition) : Prop := ∀ i, 0 ≤ i → i < p.total → 0 ≤ p.guess i ∧ p.guess i < p.parts

theorem Exact.aimed (exact : p.Exact) : p.Aimed := fun _ low high => guess_range exact low high

/-- Wherever in the pieces the walk starts, the owner of a cell is the one piece that holds it. -/
theorem Aimed.owner_eq (aimed : p.Aimed) {i : Int} {k : Nat} (low : 0 ≤ i) (high : i < p.total) (inside : k < p.parts)
    (after : p.bound k ≤ i) (before : i < p.bound (k + 1)) : p.owner i = .ok (some k) := by
  obtain ⟨start, stop⟩ := aimed i low high
  obtain ⟨guess, same⟩ := Int.eq_ofNat_of_zero_le start
  have found := search_finds (by omega) inside after before (p.parts + 1) guess (by omega) (by omega)
  rw [owner, if_neg (by omega), same, found]
  rfl

theorem owner_sound {i : Int} {k : Nat} (found : p.owner i = .ok (some k)) :
    k < p.parts ∧ p.bound k ≤ i ∧ i < p.bound (k + 1) := by
  simp only [owner] at found
  split at found
  · simp at found
  next inside =>
    cases walk : p.search i (p.parts + 1) (p.guess i) with
    | error e => simp [walk, Except.map] at found
    | ok l =>
      obtain rfl : l = k := by simpa [walk, Except.map] using found
      exact search_sound (by omega) walk

theorem owner_isSome {i : Int} (low : 0 ≤ i) (high : i < p.total) {owner : Option Nat}
    (found : p.owner i = .ok owner) : ∃ k, owner = some k := by
  rw [Partition.owner, if_neg (by omega)] at found
  cases walk : p.search i (p.parts + 1) (p.guess i) with
  | error e => simp [walk, Except.map] at found
  | ok k => exact ⟨k, by simpa [walk, Except.map] using found.symm⟩

end HaloMesh.Index.Partition
