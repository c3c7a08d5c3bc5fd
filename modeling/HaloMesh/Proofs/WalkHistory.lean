import HaloMesh.Index.Word
import HaloMesh.Proofs.GuardWalks

/-! Walks that are restarted and advanced in any order. Whatever has happened to a walk, it has still to visit all of its
integers but as many as it was advanced since it was last restarted. Past its end it stays done. -/

namespace HaloMesh.Index.Walk

/-- What moves a walk. -/
inductive Move where
  | restart
  | advance
deriving DecidableEq, Repr

/-- A walk after one move. -/
def Move.on (w : Walk) : Move → Walk
  | restart => w.restart
  | advance => w.advance

/-- The steps since the last restart, after one move more. -/
def Move.count (steps : Nat) : Move → Nat
  | restart => 0
  | advance => steps + 1

/-- A walk through segments that has made some moves. -/
def walked (segments : List Segment) (moves : List Move) : Walk := moves.foldl Move.on (through segments)

/-- How often a walk was advanced since it was last restarted, or since it began. -/
def stepsOf (moves : List Move) : Nat := moves.foldl Move.count 0

variable {segments : List Segment} {w : Walk} {k : Nat}

theorem segments_advance (w : Walk) : w.advance.segments = w.segments := by
  unfold advance
  split
  · rfl
  · dsimp only
    split
    · rfl
    · split <;> rfl

theorem segments_on (w : Walk) (m : Move) : (m.on w).segments = w.segments := by
  cases m with
  | restart => exact segments_restart w
  | advance => exact segments_advance w

theorem segments_walked (segments : List Segment) (moves : List Move) :
    (walked segments moves).segments = (through segments).segments := by
  rw [walked]
  generalize through segments = w
  induction moves generalizing w with
  | nil => rfl
  | cons m rest ih => exact (ih (m.on w)).trans (segments_on w m)

/-- A walk through segments that stands at a position in the list of their integers, or behind its end. -/
structure At (segments : List Segment) (k : Nat) (w : Walk) : Prop where
  valid : w.Valid
  same : w.segments = (through segments).segments
  left : w.rest = (listed segments).drop k

namespace At

theorem restarted (ending : Ending segments) (same : w.segments = (through segments).segments) : At segments 0 w.restart := by
  obtain ⟨valid, left⟩ := restart_valid (w := w) (fun s member => ((mem_through segments).mp (same ▸ member)).2)
    (same ▸ ending.through)
  refine ⟨valid, (segments_restart w).trans same, ?_⟩
  rw [left, same, segments_through, listed_nonempty, List.drop_zero]

theorem fresh (ending : Ending segments) : At segments 0 (through segments) :=
  restarted ending (segments_through segments).symm

theorem advance (stands : At segments k w) : At segments (k + 1) w.advance := by
  refine ⟨visits.kept w stands.valid, (segments_advance w).trans stands.same, ?_⟩
  rw [visits.rest_advance stands.valid, stands.left, List.drop_drop]

/-- A restart forgets the position, a step adds one to it, also behind the end. -/
theorem move (ending : Ending segments) (stands : At segments k w) (m : Move) : At segments (m.count k) (m.on w) := by
  cases m with
  | restart => exact restarted ending stands.same
  | advance => exact stands.advance

theorem moves (ending : Ending segments) (stands : At segments k w) (moves : List Move) :
    At segments (moves.foldl Move.count k) (moves.foldl Move.on w) := by
  induction moves generalizing w k with
  | nil => exact stands
  | cons m rest ih => exact ih (stands.move ending m)

theorem isDone_iff (stands : At segments k w) : w.isDone = true ↔ (listed segments).length ≤ k := by
  rw [visits.isDone_iff stands.valid, stands.left, List.drop_eq_nil_iff]

theorem current_eq (stands : At segments k w) (going : w.isDone = false) : (listed segments)[k]? = some w.current := by
  have head : (listed segments)[k]? = w.rest[0]? := by rw [stands.left, List.getElem?_drop, Nat.add_zero]
  rw [head, visits.step w stands.valid, going]
  rfl

theorem indices_eq (ending : Ending segments) (stands : At segments k w) : w.indices = listed segments := by
  have again : At segments 0 w.restart := restarted ending stands.same
  rw [indices, collect_eq again.valid, again.left]
  rfl

end At

/-- The lengths of segments add up to the number of their integers, counted in words. -/
theorem foldl_length (nonempty : ∀ s ∈ segments, s.first ≤ s.last) (n : Int) :
    segments.foldl (fun n s => wrap (n + s.length)) (wrap n) = wrap (n + (listed segments).length) := by
  induction segments generalizing n with
  | nil => rw [List.foldl_nil, listed, List.flatMap_nil, List.length_nil, Nat.cast_zero, Int.add_zero]
  | cons s rest ih =>
    have some_ := nonempty s List.mem_cons_self
    rw [List.foldl_cons, Segment.length, wrap_add_wrap, ih fun t member => nonempty t (List.mem_cons_of_mem _ member)]
    simp only [listed, List.flatMap_cons, List.length_append, length_span]
    congr 1
    push_cast
    omega

theorem length_walked (segments : List Segment) (moves : List Move) :
    (walked segments moves).length = wrap (listed segments).length := by
  have sum := foldl_length (fun s member => ((mem_through segments).mp member).2) 0
  rw [segments_through, listed_nonempty, Int.zero_add] at sum
  rw [length, segments_walked, segments_through]
  exact sum

theorem mem_listed {i : Int} : i ∈ listed segments ↔ ∃ s ∈ segments, s.first ≤ i ∧ i ≤ s.last := by
  simp [listed]

theorem contains_iff (w : Walk) (i : Int) : w.contains i = true ↔ i ∈ listed w.segments := by
  simp [contains, mem_listed, Segment.contains]

/-- After any moves a walk is done iff it has made as many steps as it has integers, and else it stands at the integer of
that number. It lists all of its integers, counts them and knows which they are, wherever it stands; a walk is a value, so
that none of these questions moves it. The count is a word, the number itself unless that is too large for one. -/
theorem walk_tracks_position (segments : List Segment) (moves : List Move) (ending : Ending segments) :
    ((walked segments moves).isDone = true ↔ (listed segments).length ≤ stepsOf moves) ∧
      ((walked segments moves).isDone = false →
        (listed segments)[stepsOf moves]? = some (walked segments moves).current) ∧
      (walked segments moves).indices = listed segments ∧
      (walked segments moves).length = wrap (listed segments).length ∧
      ((listed segments).length ≤ greatest → (walked segments moves).length = (listed segments).length) ∧
      ∀ i, (walked segments moves).contains i = true ↔ i ∈ listed segments := by
  have stands : At segments (stepsOf moves) (walked segments moves) := (At.fresh ending).moves ending moves
  have counted := length_walked segments moves
  refine ⟨stands.isDone_iff, stands.current_eq, stands.indices_eq ending, counted, fun few => ?_, fun i => ?_⟩
  · rw [counted]
    refine wrap_of_fits ?_ (Int.lt_of_le_sub_one few)
    rw [wordEnd_eq]
    omega
  · rw [contains_iff, stands.same, segments_through, listed_nonempty]

/-- Three segments with an integer that overlap and fall, and an empty one between them. -/
theorem walk_tracks_position_falling : Ending [⟨5, 6⟩, ⟨7, 6⟩, ⟨6, 6⟩, ⟨-1, 0⟩] ∧
    (walked [⟨5, 6⟩, ⟨7, 6⟩, ⟨6, 6⟩, ⟨-1, 0⟩] [.advance, .restart, .advance, .advance, .advance]).current = -1 ∧
    (walked [⟨5, 6⟩, ⟨7, 6⟩, ⟨6, 6⟩, ⟨-1, 0⟩] [.advance]).indices = [5, 6, 6, -1, 0] := by
  have ending : Ending [⟨5, 6⟩, ⟨7, 6⟩, ⟨6, 6⟩, ⟨-1, 0⟩] := by unfold Ending; decide
  obtain ⟨-, here, -⟩ := walk_tracks_position _ [.advance, .restart, .advance, .advance, .advance] ending
  obtain ⟨-, -, all, -⟩ := walk_tracks_position _ [.advance] ending
  exact ⟨ending, (Option.some.inj (here (by decide))).symm, all⟩

/-! A segment up to the greatest word has no end. -/

/-- A walk that has still to come to a segment up to the greatest word, or is in one. -/
structure Endless (w : Walk) : Prop where
  ahead : ∃ s ∈ w.segments.drop w.segment, s.last = greatest
  starts : ∀ s ∈ w.segments, s.first ≤ greatest
  current : w.current ≤ greatest

namespace Endless

theorem isDone_eq (endless : w.Endless) : w.isDone = false := by
  obtain ⟨s, member, -⟩ := endless.ahead
  have within := List.length_pos_of_mem member
  rw [List.length_drop] at within
  simp only [isDone, decide_eq_false_iff_not]
  omega

/-- The word after one that is not greater than the greatest is not greater either, so that the last segment is not left. -/
theorem advance (endless : w.Endless) : w.advance.Endless := by
  obtain ⟨ahead, starts, current⟩ := endless
  have after := next_le current
  unfold Walk.advance
  cases here : w.segments[w.segment]? with
  | none => exact ⟨ahead, starts, current⟩
  | some s =>
    dsimp only
    split
    next => exact ⟨ahead, starts, after⟩
    next beyond =>
      obtain ⟨within, same⟩ := List.getElem?_eq_some_iff.mp here
      have further : ∃ t ∈ w.segments.drop (w.segment + 1), t.last = greatest := by
        obtain ⟨t, member, last⟩ := ahead
        rw [List.drop_eq_getElem_cons within, same, List.mem_cons] at member
        rcases member with rfl | later
        · exact absurd (last ▸ after) beyond
        · exact ⟨t, later, last⟩
      cases later : w.segments[w.segment + 1]? with
      | none => exact ⟨further, starts, after⟩
      | some t => exact ⟨further, starts, starts t (List.mem_of_getElem? later)⟩

theorem restarted (ahead : ∃ s ∈ w.segments, s.last = greatest) (starts : ∀ s ∈ w.segments, s.first ≤ greatest) :
    w.restart.Endless := by
  obtain ⟨segments, segment, current⟩ := w
  cases segments with
  | nil => exact absurd ahead (by simp)
  | cons s rest => exact ⟨ahead, starts, starts s List.mem_cons_self⟩

end Endless

/-- A walk through words, some of which go up to the greatest one, is not done after any moves, so that no loop over it ends. -/
theorem walk_endless (words : ∀ s ∈ segments, s.last ≤ greatest) (endless : ¬ Ending segments) (moves : List Move) :
    (walked segments moves).isDone = false := by
  have ahead : ∃ s ∈ (through segments).segments, s.last = greatest := by
    simp only [Ending, not_forall, Segment.isEmpty, decide_eq_false_iff_not, not_lt] at endless
    obtain ⟨s, member, some_, last⟩ := endless
    exact ⟨s, (mem_through segments).mpr ⟨member, some_⟩, Int.le_antisymm (words s member) last⟩
  have starts : ∀ s ∈ (through segments).segments, s.first ≤ greatest := fun s member => by
    obtain ⟨among, some_⟩ := (mem_through segments).mp member
    exact Int.le_trans some_ (words s among)
  have again (w : Walk) (same : w.segments = (through segments).segments) : w.restart.Endless :=
    Endless.restarted (same ▸ ahead) (same ▸ starts)
  have moved (w : Walk) (same : w.segments = (through segments).segments) (going : w.Endless) :
      (moves.foldl Move.on w).Endless := by
    induction moves generalizing w with
    | nil => exact going
    | cons m rest ih =>
      refine ih (m.on w) ((segments_on w m).trans same) ?_
      cases m with
      | restart => exact again w same
      | advance => exact going.advance
  exact (moved _ rfl (again _ (segments_through segments).symm)).isDone_eq

/-- One step goes beyond the only integer of a segment, but the walk is not done, then or ever. More integers than words can
count make a negative length, and the walk is not done at its start. -/
theorem greatest_word_unended :
    ((walked [⟨greatest, greatest⟩] [.advance]).length = 1 ∧ stepsOf [.advance] = 1 ∧
      ∀ moves, (walked [⟨greatest, greatest⟩] moves).isDone = false) ∧
    (walked [⟨-1, greatest - 1⟩] []).isDone = false ∧ (walked [⟨-1, greatest - 1⟩] []).length < stepsOf [] := by
  have endless : ¬ Ending [⟨greatest, greatest⟩] := by unfold Ending; decide
  exact ⟨⟨by decide, rfl, walk_endless (by decide) endless⟩, by decide, by decide⟩

end HaloMesh.Index.Walk
