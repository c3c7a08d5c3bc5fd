import HaloMesh.Topology
import Mathlib.Tactic.Common

/-! The steps up and down between rows undo each other. Both are compared with one relation that
says which row lies above which. Away from the branch cuts a step goes to the next row. -/

namespace HaloMesh.Topology
open Index (next previous greatest least)

/-- A topology of `ny` rows, with its legs in order and in pairs. -/
def Proper (t : Topology) (ny : Int) : Prop :=
  (1 ≤ ny ∧ ny ≤ greatest) ∧
    match t with
    | rectangular rows _ => rows = ny
    | singleNull rows _ leg1 leg2 =>
      rows = ny ∧ -1 ≤ leg1 ∧ leg1 < leg2 ∧ leg2 ≤ ny - 1 ∧ (0 ≤ leg1 ↔ leg2 < ny - 1)

/-- Row `above` is one step up from row `below`. -/
def Connects (t : Topology) (ny : Int) (inner : Bool) (below above : Int) (twist : Bool) : Prop :=
  match t with
  | rectangular _ periodic =>
    below < ny - 1 ∧ above = below + 1 ∧ twist = false ∨
      periodic = true ∧ below = ny - 1 ∧ above = 0 ∧ twist = true
  | singleNull _ _ leg1 leg2 =>
    inner = true ∧ below = leg2 ∧ above = leg1 + 1 ∧ twist = true ∨
      inner = true ∧ below = leg1 ∧ above = leg2 + 1 ∧ twist = false ∨
      ¬ (inner = true ∧ (below = leg1 ∨ below = leg2)) ∧ below < ny - 1 ∧ above = below + 1 ∧ twist = false

variable {t : Topology} {ny : Int} {inner twist : Bool} {below above : Int}

private theorem next_row (proper : 1 ≤ ny ∧ ny ≤ greatest) {j : Int} (high : j < ny) : next j = j + 1 :=
  Index.next_of_lt (by omega)

private theorem previous_row {j : Int} (low : -1 ≤ j) : previous j = j - 1 :=
  Index.previous_of_lt (by rw [least, Index.wordEnd_eq]; omega)

theorem up_iff (proper : t.Proper ny) (high : below < ny) :
    t.up below inner = ⟨some above, twist⟩ ↔ t.Connects ny inner below above twist := by
  cases t with
  | rectangular rows periodic =>
    obtain ⟨words, rfl⟩ := proper
    simp only [up, Connects, previous_row (show -1 ≤ rows by omega), next_row words high]
    split
    · simp only [RowStep.mk.injEq, Option.some.injEq]
      constructor
      · intro holds
        obtain ⟨rfl, rfl⟩ := holds
        exact .inl ⟨by omega, rfl, rfl⟩
      · rintro (⟨-, rfl, rfl⟩ | ⟨-, last, -⟩)
        · exact ⟨rfl, rfl⟩
        · omega
    · split
      next periodic =>
        simp only [RowStep.mk.injEq, Option.some.injEq]
        constructor
        · intro holds
          obtain ⟨rfl, rfl⟩ := holds
          exact .inr ⟨periodic, by omega, rfl, rfl⟩
        · rintro (⟨early, -⟩ | ⟨-, -, rfl, rfl⟩)
          · omega
          · exact ⟨rfl, rfl⟩
      next opened =>
        simp only [RowStep.mk.injEq, reduceCtorEq, false_and, false_iff]
        rintro (⟨early, -⟩ | ⟨closed, -⟩)
        · omega
        · exact opened closed
  | singleNull rows separatrix leg1 leg2 =>
    obtain ⟨words, rfl, first, legs, last, paired⟩ := proper
    simp only [up, Connects, previous_row (show -1 ≤ rows by omega), next_row words high,
      next_row words (show leg1 < rows by omega), next_row words (show leg2 < rows by omega)]
    cases inner <;> grind

theorem down_iff (proper : t.Proper ny) (low : 0 ≤ above) (high : above < ny) :
    t.down above inner = ⟨some below, twist⟩ ↔ 0 ≤ below ∧ t.Connects ny inner below above twist := by
  cases t with
  | rectangular rows periodic =>
    obtain ⟨words, rfl⟩ := proper
    simp only [down, Connects, previous_row (show -1 ≤ rows by omega)]
    split
    · simp only [RowStep.mk.injEq, Option.some.injEq]
      constructor
      · intro holds
        obtain ⟨rfl, rfl⟩ := holds
        exact ⟨by omega, .inl ⟨by omega, by omega, rfl⟩⟩
      · intro holds
        obtain ⟨-, ⟨-, same, rfl⟩ | ⟨-, -, zero, -⟩⟩ := holds
        · exact ⟨by omega, rfl⟩
        · omega
    · split
      next periodic =>
        simp only [RowStep.mk.injEq, Option.some.injEq]
        constructor
        · intro holds
          obtain ⟨rfl, rfl⟩ := holds
          exact ⟨by omega, .inr ⟨periodic, by omega, by omega, rfl⟩⟩
        · intro holds
          obtain ⟨positive, ⟨-, same, -⟩ | ⟨-, same, -, rfl⟩⟩ := holds
          · omega
          · exact ⟨same.symm, rfl⟩
      next opened =>
        simp only [RowStep.mk.injEq, reduceCtorEq, false_and, false_iff]
        intro holds
        obtain ⟨positive, ⟨-, same, -⟩ | ⟨closed, -⟩⟩ := holds
        · omega
        · exact opened closed
  | singleNull rows separatrix leg1 leg2 =>
    obtain ⟨words, rfl, first, legs, last, paired⟩ := proper
    simp only [down, Connects, previous_row (show -1 ≤ above by omega),
      next_row words (show leg1 < rows by omega), next_row words (show leg2 < rows by omega)]
    cases inner <;> grind

theorem connects_range (proper : t.Proper ny) (low : 0 ≤ below) (high : below < ny)
    (connects : t.Connects ny inner below above twist) : 0 ≤ above ∧ above < ny := by
  cases t with
  | rectangular rows periodic =>
    obtain ⟨words, rfl⟩ := proper
    rcases connects with ⟨early, rfl, -⟩ | ⟨-, -, rfl, -⟩ <;> omega
  | singleNull rows separatrix leg1 leg2 =>
    obtain ⟨words, rfl, first, legs, last, paired⟩ := proper
    rcases connects with ⟨-, rfl, rfl, -⟩ | ⟨-, rfl, rfl, -⟩ | ⟨-, early, rfl, -⟩ <;> omega

/-- A step up and a step down undo each other, and both tell the same of the twist. -/
theorem up_eq_iff_down_eq (proper : t.Proper ny) (low : 0 ≤ below) (high : below < ny) (low' : 0 ≤ above)
    (high' : above < ny) : t.up below inner = ⟨some above, twist⟩ ↔ t.down above inner = ⟨some below, twist⟩ := by
  rw [up_iff proper high, down_iff proper low' high']
  exact ⟨fun connects => ⟨low, connects⟩, fun connects => connects.2⟩

theorem cuts_singleNull {separatrix leg1 leg2 : Int} (proper : (singleNull ny separatrix leg1 leg2).Proper ny)
    (cut : Int) : cut ∈ (singleNull ny separatrix leg1 leg2).cuts ↔
      (0 ≤ leg1 ∧ cut = leg1 + 1) ∨ (leg2 < ny - 1 ∧ cut = leg2 + 1) := by
  obtain ⟨words, -, first, legs, last, paired⟩ := proper
  simp only [cuts, previous_row (show -1 ≤ ny by omega), next_row words (show leg1 < ny by omega),
    next_row words (show leg2 < ny by omega)]
  by_cases both : 0 ≤ leg1
  · simp [both, paired.mp both]
  · simp [both, mt paired.mpr both]

theorem cut_range (proper : t.Proper ny) {cut : Int} (member : cut ∈ t.cuts) : 0 < cut ∧ cut < ny := by
  cases t with
  | rectangular => simp [cuts] at member
  | singleNull rows separatrix leg1 leg2 =>
    obtain rfl : rows = ny := proper.2.1
    rw [cuts_singleNull proper] at member
    obtain ⟨words, -, first, legs, last, paired⟩ := proper
    omega

/-- A step that does not go to the next row leaves the end of a region and enters the start of
one. -/
theorem connects_jump (proper : t.Proper ny) (low : 0 ≤ below)
    (connects : t.Connects ny inner below above twist) : above = below + 1 ∧ twist = false ∨
      (below + 1 = ny ∨ below + 1 ∈ t.cuts) ∧ (above = 0 ∨ above ∈ t.cuts) := by
  cases t with
  | rectangular rows periodic =>
    rcases connects with ⟨-, rfl, rfl⟩ | ⟨-, last, rfl, -⟩
    · exact .inl ⟨rfl, rfl⟩
    · exact .inr ⟨.inl (by omega), .inl rfl⟩
  | singleNull rows separatrix leg1 leg2 =>
    obtain rfl : rows = ny := proper.2.1
    have cut := cuts_singleNull proper
    obtain ⟨words, -, first, legs, last, paired⟩ := proper
    rcases connects with ⟨-, rfl, rfl, -⟩ | ⟨-, rfl, rfl, -⟩ | ⟨-, -, rfl, rfl⟩
    · refine .inr ⟨?_, ?_⟩
      · by_cases end_ : below < rows - 1
        · exact .inr ((cut _).mpr (.inr ⟨end_, rfl⟩))
        · exact .inl (by omega)
      · by_cases legged : 0 ≤ leg1
        · exact .inr ((cut _).mpr (.inl ⟨legged, rfl⟩))
        · exact .inl (by omega)
    · exact .inr ⟨.inr ((cut _).mpr (.inl ⟨low, rfl⟩)), .inr ((cut _).mpr (.inr ⟨paired.mp low, rfl⟩))⟩
    · exact .inl ⟨rfl, rfl⟩

/-- Where no branch cut lies between two rows, the second one is one step up from the first. -/
theorem up_within (proper : t.Proper ny) {row : Int} (low : 0 ≤ row) (high : row + 1 < ny)
    (uncut : row + 1 ∉ t.cuts) : t.up row inner = ⟨some (row + 1), false⟩ := by
  rw [up_iff proper (by omega)]
  cases t with
  | rectangular rows periodic => exact .inl ⟨by omega, rfl, rfl⟩
  | singleNull rows separatrix leg1 leg2 =>
    obtain rfl : rows = ny := proper.2.1
    rw [cuts_singleNull proper] at uncut
    obtain ⟨words, -, first, legs, last, paired⟩ := proper
    refine .inr (.inr ⟨?_, by omega, rfl, rfl⟩)
    omega

def climb (t : Topology) (inner : Bool) : Nat → Int → Option Int
  | 0, row => some row
  | steps + 1, row => (t.climb inner steps row).bind fun k => (t.up k inner).row

def descend (t : Topology) (inner : Bool) : Nat → Int → Option Int
  | 0, row => some row
  | steps + 1, row => (t.descend inner steps row).bind fun k => (t.down k inner).row

/-- Rows from `start` up to but not including `stop` that no branch cut divides. -/
def Uncut (t : Topology) (start stop : Int) : Prop := ∀ cut ∈ t.cuts, cut ≤ start ∨ stop ≤ cut

/-- After a step into an undivided run of rows, further steps go along it. -/
theorem climb_run (proper : t.Proper ny) {row start stop : Int} (uncut : t.Uncut start stop) (low : 0 ≤ start)
    (high : stop ≤ ny) (enters : (t.up row inner).row = some start) (steps : Nat) (inside : start + steps < stop) :
    t.climb inner (steps + 1) row = some (start + steps) := by
  induction steps with
  | zero => simpa [climb] using enters
  | succ steps ih =>
    have within : t.up (start + steps) inner = ⟨some (start + steps + 1), false⟩ := by
      apply up_within proper (by omega) (by omega)
      intro cut
      have := uncut _ cut
      omega
    rw [climb, ih (by omega), Option.bind_some, within]
    simp only [Option.some.injEq]
    omega

theorem descend_run (proper : t.Proper ny) {row start stop : Int} (uncut : t.Uncut start stop) (low : 0 ≤ start)
    (high : stop ≤ ny) (enters : (t.down row inner).row = some (stop - 1)) (steps : Nat)
    (inside : start ≤ stop - 1 - steps) : t.descend inner (steps + 1) row = some (stop - 1 - steps) := by
  induction steps with
  | zero => simpa [descend] using enters
  | succ steps ih =>
    have within : t.up (stop - 1 - steps - 1) inner = ⟨some (stop - 1 - steps - 1 + 1), false⟩ := by
      apply up_within proper (by omega) (by omega)
      intro cut
      have := uncut _ cut
      omega
    rw [up_eq_iff_down_eq proper (by omega) (by omega) (by omega) (by omega), Int.sub_add_cancel] at within
    have back : (t.down (stop - 1 - steps) inner).row = some (stop - 1 - steps - 1) := by rw [within]
    rw [descend, ih (by omega), Option.bind_some, back]
    simp only [Option.some.injEq]
    omega

end HaloMesh.Topology
