import HaloMesh.Proofs.GlobalLines

/-! The rows of a field line one after the other. A walk along the line, up or down, only counts: it ends where the
count leaves the line, or starts again if the line is closed. -/

namespace HaloMesh.Topology
open Index (next previous)

/-- A field line by its rows in ascending order. Not more than one gap divides them. -/
structure Track where
  head : Int
  skip : Int
  length : Int
  closed : Bool
deriving DecidableEq, Repr

/-- The row in place `k`, where the rows before the gap come first. -/
def Track.row (line : Track) (k : Int) : Int := if k < line.head then k else k + line.skip

/-- The place so many steps up or down. -/
def Track.step (line : Track) (up : Bool) (k : Int) (steps : Nat) : Option Int :=
  if line.closed then some (ahead up k steps % line.length)
  else if 0 ≤ ahead up k steps ∧ ahead up k steps < line.length then some (ahead up k steps)
  else none

/-- The line through a row, among the inner or the outer columns. -/
def track : Topology → Bool → Int → Track
  | rectangular ny periodic, _, _ => ⟨0, 0, ny, periodic⟩
  | singleNull ny _ _ _, false, _ => ⟨0, 0, ny, false⟩
  | singleNull ny _ leg1 leg2, true, row =>
    if inCore leg1 leg2 row then ⟨0, leg1 + 1, leg2 - leg1, true⟩ else ⟨leg1 + 1, leg2 - leg1, leg1 + ny - leg2, false⟩

/-- A row lies on the field line of another. -/
def OnLine (t : Topology) (inner : Bool) (row other : Int) : Prop :=
  ∃ up steps, t.walk up inner steps row = some other

variable {t : Topology} {ny row k k' : Int} {inner up : Bool}

theorem track_core {separatrix leg1 leg2 : Int} (core : leg1 < row ∧ row ≤ leg2) :
    (singleNull ny separatrix leg1 leg2).track true row = ⟨0, leg1 + 1, leg2 - leg1, true⟩ :=
  if_pos (by simpa only [inCore, Bool.and_eq_true, decide_eq_true_eq] using core)

theorem track_legs {separatrix leg1 leg2 : Int} (legs : ¬ (leg1 < row ∧ row ≤ leg2)) :
    (singleNull ny separatrix leg1 leg2).track true row = ⟨leg1 + 1, leg2 - leg1, leg1 + ny - leg2, false⟩ :=
  if_neg (by simpa only [inCore, Bool.and_eq_true, decide_eq_true_eq] using legs)

theorem lineLength_eq (x : Int) : t.lineLength x row = (t.track (decide (x < t.separatrix)) row).length := by
  cases t with
  | rectangular => rfl
  | singleNull rows separatrix leg1 leg2 =>
    change (if separatrix ≤ x then rows else if inCore leg1 leg2 row then leg2 - leg1 else leg1 + 1 + rows - 1 - leg2) =
      ((singleNull rows separatrix leg1 leg2).track (decide (x < separatrix)) row).length
    cases side : decide (x < separatrix) with
    | false => exact if_pos (by simpa using side)
    | true =>
      rw [if_neg (by simpa using side), track]
      split
      · rfl
      · change leg1 + 1 + rows - 1 - leg2 = leg1 + rows - leg2
        omega

theorem isPeriodic_eq (x : Int) : t.isPeriodic x row = (t.track (decide (x < t.separatrix)) row).closed := by
  cases t with
  | rectangular => rfl
  | singleNull rows separatrix leg1 leg2 =>
    change (decide (x < separatrix) && inCore leg1 leg2 row) =
      ((singleNull rows separatrix leg1 leg2).track (decide (x < separatrix)) row).closed
    cases decide (x < separatrix) with
    | false => rfl
    | true =>
      rw [track]
      cases inCore leg1 leg2 row <;> rfl

section Line

variable (proper : t.Proper ny)
include proper

theorem track_gap : 0 ≤ (t.track inner row).skip := by
  cases t with
  | rectangular => exact le_refl _
  | singleNull rows separatrix leg1 leg2 =>
    obtain ⟨words, rfl, first, legs, last, paired⟩ := proper
    cases inner with
    | false => exact le_refl _
    | true =>
      rw [track]
      split <;> simp only <;> omega

theorem track_mono (less : k < k') : (t.track inner row).row k < (t.track inner row).row k' := by
  have gap : 0 ≤ (t.track inner row).skip := track_gap proper
  simp only [Track.row]
  split <;> split <;> omega

theorem track_inj (same : (t.track inner row).row k = (t.track inner row).row k') : k = k' := by
  rcases Int.lt_trichotomy k k' with less | equal | more
  · exact absurd same (track_mono proper less).ne
  · exact equal
  · exact absurd same (track_mono proper more).ne'

variable (inner) in
/-- Every row has its place on its line. -/
theorem track_place (low : 0 ≤ row) (high : row < ny) :
    ∃ k, (0 ≤ k ∧ k < (t.track inner row).length) ∧ (t.track inner row).row k = row := by
  cases t with
  | rectangular rows periodic =>
    obtain ⟨words, rfl⟩ := proper
    exact ⟨row, ⟨low, high⟩, by simp [track, Track.row]⟩
  | singleNull rows separatrix leg1 leg2 =>
    obtain ⟨words, rfl, first, legs, last, paired⟩ := proper
    cases inner with
    | false => exact ⟨row, ⟨low, high⟩, by simp [track, Track.row]⟩
    | true =>
      by_cases core : leg1 < row ∧ row ≤ leg2
      · rw [track_core core]
        exact ⟨row - (leg1 + 1), by simp only; omega, by simp only [Track.row]; omega⟩
      · rw [track_legs core]
        by_cases before : row ≤ leg1
        · exact ⟨row, by simp only; omega, by simp only [Track.row]; omega⟩
        · exact ⟨row - (leg2 - leg1), by simp only; omega, by simp only [Track.row]; omega⟩

variable (high : row < ny) (inside : 0 ≤ k ∧ k < (t.track inner row).length)
include high inside

/-- The rows of a line are rows of the grid, and the line is the same from each of them. -/
theorem track_row : (0 ≤ (t.track inner row).row k ∧ (t.track inner row).row k < ny) ∧
    t.track inner ((t.track inner row).row k) = t.track inner row := by
  cases t with
  | rectangular rows periodic =>
    obtain ⟨words, rfl⟩ := proper
    exact ⟨by simpa [track, Track.row] using inside, rfl⟩
  | singleNull rows separatrix leg1 leg2 =>
    obtain ⟨words, rfl, first, legs, last, paired⟩ := proper
    cases inner with
    | false => exact ⟨by simpa [track, Track.row] using inside, rfl⟩
    | true =>
      by_cases core : leg1 < row ∧ row ≤ leg2
      · rw [track_core core] at inside ⊢
        simp only [Track.row] at inside ⊢
        exact ⟨by omega, track_core (by omega)⟩
      · rw [track_legs core] at inside ⊢
        simp only [Track.row] at inside ⊢
        exact ⟨by omega, track_legs (by omega)⟩

theorem up_track : (t.up ((t.track inner row).row k) inner).row =
    if k + 1 < (t.track inner row).length then some ((t.track inner row).row (k + 1))
    else if (t.track inner row).closed then some ((t.track inner row).row 0) else none := by
  have range := (track_row proper high inside).1
  cases t with
  | rectangular rows periodic =>
    obtain ⟨words, rfl⟩ := proper
    simp only [track, Track.row, Int.add_zero, ite_self] at inside ⊢
    have last : previous rows = rows - 1 := Index.previous_of_lt (by rw [Index.least, Index.wordEnd_eq]; omega)
    rw [Topology.up, last, Index.next_of_lt (by omega)]
    grind
  | singleNull rows separatrix leg1 leg2 =>
    obtain ⟨words, rfl, first, legs, last, paired⟩ := proper
    have last : previous rows = rows - 1 := Index.previous_of_lt (by rw [Index.least, Index.wordEnd_eq]; omega)
    have first' : next leg1 = leg1 + 1 := Index.next_of_lt (by omega)
    have second' : next leg2 = leg2 + 1 := Index.next_of_lt (by omega)
    rw [Topology.up, last, first', second', Index.next_of_lt (by omega)]
    cases inner with
    | false =>
      simp only [track, Track.row, Int.add_zero, ite_self] at inside range ⊢
      grind
    | true =>
      by_cases core : leg1 < row ∧ row ≤ leg2
      · rw [track_core core] at inside range ⊢
        simp only [Track.row] at inside range ⊢
        grind
      · rw [track_legs core] at inside range ⊢
        simp only [Track.row] at inside range ⊢
        grind

theorem down_track : (t.down ((t.track inner row).row k) inner).row =
    if 0 < k then some ((t.track inner row).row (k - 1))
    else if (t.track inner row).closed then some ((t.track inner row).row ((t.track inner row).length - 1)) else none := by
  have range := (track_row proper high inside).1
  cases t with
  | rectangular rows periodic =>
    obtain ⟨words, rfl⟩ := proper
    simp only [track, Track.row, Int.add_zero, ite_self] at inside ⊢
    have last : previous rows = rows - 1 := Index.previous_of_lt (by rw [Index.least, Index.wordEnd_eq]; omega)
    rw [Topology.down, last]
    grind
  | singleNull rows separatrix leg1 leg2 =>
    obtain ⟨words, rfl, first, legs, last, paired⟩ := proper
    have first' : next leg1 = leg1 + 1 := Index.next_of_lt (by omega)
    have second' : next leg2 = leg2 + 1 := Index.next_of_lt (by omega)
    cases inner with
    | false =>
      simp only [track, Track.row, Int.add_zero, ite_self] at inside range ⊢
      have before : previous k = k - 1 := Index.previous_of_lt (by rw [Index.least, Index.wordEnd_eq]; omega)
      rw [Topology.down, before]
      grind
    | true =>
      have before (j : Int) (positive : 0 ≤ j) : previous j = j - 1 :=
        Index.previous_of_lt (by rw [Index.least, Index.wordEnd_eq]; omega)
      rw [Topology.down, before _ range.1, first', second']
      by_cases core : leg1 < row ∧ row ≤ leg2
      · rw [track_core core] at inside range ⊢
        simp only [Track.row] at inside range ⊢
        grind
      · rw [track_legs core] at inside range ⊢
        simp only [Track.row] at inside range ⊢
        grind

/-- One step along a line. -/
theorem step_track (up : Bool) : (t.step up ((t.track inner row).row k) inner).row =
    ((t.track inner row).step up k 1).map (t.track inner row).row := by
  have single : t.step up ((t.track inner row).row k) inner =
      if up then t.up ((t.track inner row).row k) inner else t.down ((t.track inner row).row k) inner := rfl
  rw [single]
  cases closed : (t.track inner row).closed with
  | true =>
    rw [Track.step, if_pos closed, Option.map_some]
    cases up with
    | true =>
      simp only [up_track proper high inside, ahead, ↓reduceIte, closed, Nat.cast_one]
      split
      next more => rw [Int.emod_eq_of_lt (by omega) more]
      next last => rw [show k + 1 = (t.track inner row).length by omega, Int.emod_self]
    | false =>
      simp only [down_track proper high inside, ahead, Bool.false_eq_true, ↓reduceIte, closed, Nat.cast_one]
      split
      next more => rw [Int.emod_eq_of_lt (by omega) (by omega)]
      next first =>
        rw [← Int.add_emod_right, Int.emod_eq_of_lt (by omega) (by omega), show k = 0 by omega, Int.zero_sub, Int.add_comm]
        rfl
  | false =>
    rw [Track.step, closed]
    cases up with
    | true =>
      simp only [up_track proper high inside, ahead, ↓reduceIte, closed, Nat.cast_one, Bool.false_eq_true]
      split
      next more => rw [if_pos (by omega), Option.map_some]
      next last => rw [if_neg (by omega), Option.map_none]
    | false =>
      simp only [down_track proper high inside, ahead, Bool.false_eq_true, ↓reduceIte, closed, Nat.cast_one]
      split
      next more => rw [if_pos (by omega), Option.map_some]
      next first => rw [if_neg (by omega), Option.map_none]

/-- A walk along a line counts places. -/
theorem walk_track (up : Bool) (steps : Nat) : t.walk up inner steps ((t.track inner row).row k) =
    ((t.track inner row).step up k steps).map (t.track inner row).row := by
  induction steps with
  | zero =>
    rw [walk_zero, Track.step]
    have here : ahead up k 0 = k := by cases up <;> simp [ahead]
    rw [here, Int.emod_eq_of_lt inside.1 inside.2, if_pos inside]
    split <;> rfl
  | succ steps ih =>
    rw [walk_succ, ih]
    have further : ahead up k (steps + 1) = ahead up (ahead up k steps) 1 := by
      cases up <;> simp only [ahead, Bool.false_eq_true, ↓reduceIte] <;> omega
    cases closed : (t.track inner row).closed with
    | true =>
      have positive : 0 < (t.track inner row).length := by omega
      have within := And.intro (Int.emod_nonneg (ahead up k steps) positive.ne') (Int.emod_lt_of_pos (ahead up k steps) positive)
      rw [Track.step, if_pos closed, Option.map_some, Option.bind_some, step_track proper high within, Track.step,
        if_pos closed, Track.step, if_pos closed, further]
      cases up <;> simp [ahead]
    | false =>
      simp only [Track.step, closed, Bool.false_eq_true, ↓reduceIte]
      split
      next within =>
        rw [Option.map_some, Option.bind_some, step_track proper high within, Track.step, closed, further]
        rfl
      next outside =>
        rw [Option.map_none, Option.bind_none, if_neg, Option.map_none]
        rw [further]
        cases up <;> simp only [ahead, Bool.false_eq_true, ↓reduceIte] at outside ⊢ <;> omega

/-- A row lies on a line if it has a place there. -/
theorem onLine_track (other : Int) : t.OnLine inner ((t.track inner row).row k) other ↔
    ∃ k', (0 ≤ k' ∧ k' < (t.track inner row).length) ∧ (t.track inner row).row k' = other := by
  constructor
  · intro reached
    obtain ⟨up, steps, reached⟩ := reached
    rw [walk_track proper high inside, Option.map_eq_some_iff] at reached
    obtain ⟨k', moved, rfl⟩ := reached
    refine ⟨k', ?_, rfl⟩
    rw [Track.step] at moved
    split at moved
    · obtain rfl := Option.some.inj moved
      exact ⟨Int.emod_nonneg _ (by omega), Int.emod_lt_of_pos _ (by omega)⟩
    · split at moved
      next within =>
        obtain rfl := Option.some.inj moved
        exact within
      · cases moved
  · intro placed
    obtain ⟨k', within, rfl⟩ := placed
    -- up to a later place, down to an earlier one
    have moved : (t.track inner row).step (decide (k ≤ k')) k (k' - k).natAbs = some k' := by
      have there : ahead (decide (k ≤ k')) k (k' - k).natAbs = k' := by
        by_cases later : k ≤ k' <;>
          simp only [ahead, later, decide_true, decide_false, Bool.false_eq_true, ↓reduceIte] <;> omega
      rw [Track.step, there, Int.emod_eq_of_lt within.1 within.2, if_pos within, ite_self]
    exact ⟨_, _, by rw [walk_track proper high inside, moved, Option.map_some]⟩

end Line
end HaloMesh.Topology
