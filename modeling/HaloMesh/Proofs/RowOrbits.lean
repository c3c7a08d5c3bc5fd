import Mathlib.Data.Int.ConditionallyCompleteOrder
import Mathlib.Data.Int.Interval
import Mathlib.Data.Set.Card
import HaloMesh.Proofs.FieldLineRows

/-! Field lines as orbits. Steps up and down, in any order, lead from a row to the rows of its field line and to no
others. Length and closure of a line are worked out from the legs of a null alone, and describe this orbit. -/

namespace HaloMesh.Topology
open Index (next previous greatest least)

/-- A rectangle with at least one row, or a null that was accepted when it was made. -/
def Accepted (t : Topology) (ny : Int) : Prop :=
  ny ≤ greatest ∧
    match t with
    | rectangular rows _ => rows = ny ∧ 1 ≤ ny
    | singleNull rows separatrix leg1 leg2 => rows = ny ∧ makeSingleNull rows separatrix leg1 leg2 = .ok t

def Beside (t : Topology) (inner : Bool) (row other : Int) : Prop := ∃ up, (t.step up row inner).row = some other

/-- The rows that can be reached from a row. -/
def orbit (t : Topology) (inner : Bool) (row : Int) : Set Int := {other | Relation.ReflTransGen (t.Beside inner) row other}

/-- The orbit of a row has a length, and is closed or not. A closed one has no end in either direction and comes back
to each of its rows; it crosses one twist. An open one crosses none. -/
structure Orbits (t : Topology) (inner : Bool) (row length : Int) (closed : Bool) : Prop where
  finite : (t.orbit inner row).Finite
  counted : (t.orbit inner row).ncard = length
  returns : ∀ up, closed = true ↔ ∃ steps, 0 < steps ∧ t.walk up inner steps row = some row
  endless : ∀ up, closed = true ↔ ∀ other ∈ t.orbit inner row, (t.step up other inner).row ≠ none
  twisted : closed = true → ∀ up, ∃! other, other ∈ t.orbit inner row ∧ (t.step up other inner).twist = true
  straight : closed = false → ∀ up, ∀ other ∈ t.orbit inner row, (t.step up other inner).twist = false

def Track.final (line : Track) (up : Bool) : Int := if up then line.length - 1 else 0

variable {t : Topology} {ny row k : Int} {inner up : Bool}

/-- Where there is a row, an accepted topology is a proper one. -/
theorem Accepted.proper (accepted : t.Accepted ny) (low : 0 ≤ row) (high : row < ny) : t.Proper ny := by
  obtain ⟨words, made⟩ := accepted
  cases t with
  | rectangular rows periodic => exact ⟨⟨made.2, words⟩, made.1⟩
  | singleNull rows separatrix leg1 leg2 =>
    obtain ⟨rfl, made⟩ := made
    exact GridShape.makeSingleNull_proper ⟨by omega, words⟩ made

section Line

variable (proper : t.Proper ny) (high : row < ny) (inside : 0 ≤ k ∧ k < (t.track inner row).length)
include proper high inside

/-- The one twist of a closed line lies above its last row, that is below its first one. -/
theorem twist_track (up : Bool) : (t.step up ((t.track inner row).row k) inner).twist =
    ((t.track inner row).closed && decide (k = (t.track inner row).final up)) := by
  have range := (track_row proper high inside).1
  cases t with
  | rectangular rows periodic =>
    obtain ⟨words, rfl⟩ := proper
    simp only [track, Track.row, Int.add_zero, ite_self] at inside ⊢
    have last : previous rows = rows - 1 := Index.previous_of_lt (by rw [least, Index.wordEnd_eq]; omega)
    cases up <;> cases periodic <;> simp only [step, Track.final, Topology.up, Topology.down, last] <;> grind
  | singleNull rows separatrix leg1 leg2 =>
    obtain ⟨words, rfl, first, legs, last, paired⟩ := proper
    have last : previous rows = rows - 1 := Index.previous_of_lt (by rw [least, Index.wordEnd_eq]; omega)
    have first' : next leg1 = leg1 + 1 := Index.next_of_lt (by omega)
    have second' : next leg2 = leg2 + 1 := Index.next_of_lt (by omega)
    cases inner with
    | false =>
      simp only [track, Track.row, Int.add_zero, ite_self] at inside range ⊢
      cases up <;> simp only [step, Track.final, Topology.up, Topology.down, last, first', second'] <;> grind
    | true =>
      by_cases core : leg1 < row ∧ row ≤ leg2
      · rw [track_core core] at inside range ⊢
        simp only [Track.row] at inside range ⊢
        cases up <;> simp only [step, Track.final, Topology.up, Topology.down, last, first', second'] <;> grind
      · rw [track_legs core] at inside range ⊢
        simp only [Track.row] at inside range ⊢
        cases up <;> simp only [step, Track.final, Topology.up, Topology.down, last, first', second'] <;> grind

theorem beside_track {other : Int} (beside : t.Beside inner ((t.track inner row).row k) other) :
    other ∈ (t.track inner row).row '' Set.Ico 0 (t.track inner row).length := by
  obtain ⟨up, stepped⟩ := beside
  have walked : t.walk up inner 1 ((t.track inner row).row k) = some other := by
    rw [walk_succ, walk_zero, Option.bind_some, stepped]
  exact (onLine_track proper high inside other).mp ⟨up, 1, walked⟩

omit proper high inside in
theorem reaches_of_walk {steps : Nat} {other : Int} (walked : t.walk up inner steps row = some other) :
    other ∈ t.orbit inner row := by
  induction steps generalizing other with
  | zero =>
    rw [walk_zero] at walked
    exact Option.some.inj walked ▸ .refl
  | succ steps ih =>
    rw [walk_succ, Option.bind_eq_some_iff] at walked
    obtain ⟨middle, before, stepped⟩ := walked
    exact (ih before).tail ⟨up, stepped⟩

omit inside in
theorem orbit_eq (low : 0 ≤ row) :
    t.orbit inner row = (t.track inner row).row '' Set.Ico 0 (t.track inner row).length := by
  obtain ⟨k, inside, here⟩ := track_place inner proper low high
  ext other
  constructor
  · intro reached
    induction reached with
    | refl => exact ⟨k, inside, here⟩
    | tail _ beside ih =>
      obtain ⟨k', inside', rfl⟩ := ih
      exact beside_track proper high inside' beside
  · intro placed
    obtain ⟨up, steps, walked⟩ := (onLine_track proper high inside other).mpr placed
    rw [here] at walked
    exact reaches_of_walk walked

omit inside

section Orbit

variable (low : 0 ≤ row)
include low

theorem final_within (up : Bool) :
    0 ≤ (t.track inner row).final up ∧ (t.track inner row).final up < (t.track inner row).length := by
  obtain ⟨k, inside, -⟩ := track_place inner proper low high
  cases up <;> simp only [Track.final, Bool.false_eq_true, ↓reduceIte] <;> omega

theorem orbit_final (up : Bool) : (t.track inner row).row ((t.track inner row).final up) ∈ t.orbit inner row := by
  rw [orbit_eq proper high low]
  exact ⟨_, final_within proper high low up, rfl⟩

theorem mem_orbit {other : Int} (member : other ∈ t.orbit inner row) :
    ∃ k, (0 ≤ k ∧ k < (t.track inner row).length) ∧ (t.track inner row).row k = other := by
  rwa [orbit_eq proper high low] at member

theorem orbit_finite : (t.orbit inner row).Finite := by
  rw [orbit_eq proper high low, ← Finset.coe_Ico]
  exact (Finset.finite_toSet _).image _

theorem orbit_card : ((t.orbit inner row).ncard : Int) = (t.track inner row).length := by
  obtain ⟨k, inside, -⟩ := track_place inner proper low high
  rw [orbit_eq proper high low, Set.ncard_image_of_injective _ fun _ _ same => track_inj proper same, ← Finset.coe_Ico,
    Set.ncard_coe_finset, Int.card_Ico]
  omega

/-- A walk in one direction comes back if the line is closed, after going around it once. -/
theorem walk_returns (up : Bool) : (t.track inner row).closed = true ↔
    ∃ steps, 0 < steps ∧ t.walk up inner steps row = some row := by
  obtain ⟨k, inside, here⟩ := track_place inner proper low high
  have walked (steps : Nat) : t.walk up inner steps ((t.track inner row).row k) = _ := walk_track proper high inside up steps
  rw [here] at walked
  constructor
  · intro closed
    refine ⟨(t.track inner row).length.toNat, by omega, ?_⟩
    have whole : ((t.track inner row).length.toNat : Int) = (t.track inner row).length := by omega
    have around : ahead up k (t.track inner row).length.toNat % (t.track inner row).length = k := by
      cases up
      · rw [ahead, if_neg (by decide), whole, Int.sub_emod_right, Int.emod_eq_of_lt inside.1 inside.2]
      · rw [ahead, if_pos rfl, whole, Int.add_emod_right, Int.emod_eq_of_lt inside.1 inside.2]
    rw [walked, Track.step, if_pos closed, around, Option.map_some, here]
  · intro again
    obtain ⟨steps, some_, returned⟩ := again
    by_contra opened
    rw [walked, Track.step, if_neg opened] at returned
    split at returned
    · have same := track_inj proper ((Option.some.inj returned).trans here.symm)
      cases up <;> simp only [ahead, Bool.false_eq_true, ↓reduceIte] at same <;> omega
    · cases returned

theorem closed_endless (up : Bool) : (t.track inner row).closed = true ↔
    ∀ other ∈ t.orbit inner row, (t.step up other inner).row ≠ none := by
  constructor
  · intro closed other member
    obtain ⟨k, inside, rfl⟩ := mem_orbit proper high low member
    rw [step_track proper high inside, Track.step, if_pos closed]
    exact Option.some_ne_none _
  · intro endless
    by_contra opened
    apply endless _ (orbit_final proper high low up)
    rw [step_track proper high (final_within proper high low up), Track.step, if_neg opened, if_neg, Option.map_none]
    cases up <;> simp only [ahead, Track.final, Bool.false_eq_true, ↓reduceIte] <;> omega

theorem closed_twist (closed : (t.track inner row).closed = true) (up : Bool) :
    ∃! other, other ∈ t.orbit inner row ∧ (t.step up other inner).twist = true := by
  have within : _ ∧ (t.track inner row).final up < (t.track inner row).length := final_within proper high low up
  have final := twist_track proper high within up
  refine ⟨_, ⟨orbit_final proper high low up, by simp [final, closed]⟩, fun other crossed => ?_⟩
  obtain ⟨member, twist⟩ := crossed
  obtain ⟨k, inside, rfl⟩ := mem_orbit proper high low member
  rw [twist_track proper high inside, closed, Bool.true_and, decide_eq_true_eq] at twist
  rw [twist]

theorem open_straight (opened : (t.track inner row).closed = false) (up : Bool) {other : Int}
    (member : other ∈ t.orbit inner row) : (t.step up other inner).twist = false := by
  obtain ⟨k, inside, rfl⟩ := mem_orbit proper high low member
  rw [twist_track proper high inside, opened, Bool.false_and]

theorem orbits_track : t.Orbits inner row (t.track inner row).length (t.track inner row).closed where
  finite := orbit_finite proper high low
  counted := orbit_card proper high low
  returns := walk_returns proper high low
  endless := closed_endless proper high low
  twisted := closed_twist proper high low
  straight opened up _ member := open_straight proper high low opened up member

end Orbit

end Line

/-- The rows of every accepted topology form field lines, inside and outside the separatrix. No step leaves the grid, and
a step up and a step down undo each other and agree on the twist. From every row, length and closure of its line are those
of its orbit. Where a step up does not go to the next row, it leaves the last row of a region for the first one of a
region. -/
theorem rows_form_field_lines {t : Topology} {ny : Int} (accepted : t.Accepted ny) :
    (∀ row, 0 ≤ row → row < ny → ∀ inner up other, (t.step up row inner).row = some other → 0 ≤ other ∧ other < ny) ∧
    (∀ row other, 0 ≤ row → row < ny → 0 ≤ other → other < ny → ∀ inner twist,
      t.up row inner = ⟨some other, twist⟩ ↔ t.down other inner = ⟨some row, twist⟩) ∧
    (∀ row, 0 ≤ row → row < ny → ∀ x,
      t.Orbits (decide (x < t.separatrix)) row (t.lineLength x row) (t.isPeriodic x row)) ∧
    ∀ row, 0 ≤ row → row < ny → ∀ inner other, (t.up row inner).row = some other → other ≠ row + 1 →
      (row + 1 = ny ∨ row + 1 ∈ t.cuts) ∧ (other = 0 ∨ other ∈ t.cuts) := by
  refine ⟨fun row low high inner up other stepped => ?_, fun row other low high low' high' inner twist => ?_,
    fun row low high x => ?_, fun row low high inner other stepped jumps => ?_⟩
  · have proper := accepted.proper low high
    obtain ⟨k, inside, here⟩ := track_place inner proper low high
    rw [← here] at stepped
    obtain ⟨k', inside', rfl⟩ := beside_track proper high inside ⟨up, stepped⟩
    exact (track_row proper high inside').1
  · exact up_eq_iff_down_eq (accepted.proper low high) low high low' high'
  · rw [lineLength_eq, isPeriodic_eq]
    exact orbits_track (accepted.proper low high) high low
  · have proper := accepted.proper low high
    have connects : t.Connects ny inner row other (t.up row inner).twist := by
      rw [← up_iff proper high, ← stepped]
    exact (connects_jump proper low connects).resolve_left fun next => jumps next.1

/-- A null with both legs. Below the separatrix the four rows of the core are a closed line and the four rows of the legs
an open one; above it all rows are one line. -/
theorem rows_form_field_lines_null : (singleNull 8 3 1 5).Accepted 8 ∧ (singleNull 8 3 1 5).Orbits true 4 4 true ∧
    (singleNull 8 3 1 5).Orbits true 0 4 false ∧ (singleNull 8 3 1 5).Orbits false 4 8 false := by
  have accepted : (singleNull 8 3 1 5).Accepted 8 := ⟨by decide, rfl, rfl⟩
  obtain ⟨-, -, lines, -⟩ := rows_form_field_lines accepted
  exact ⟨accepted, lines 4 (by decide) (by decide) 2, lines 0 (by decide) (by decide) 2, lines 4 (by decide) (by decide) 3⟩

end HaloMesh.Topology
