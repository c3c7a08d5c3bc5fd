import HaloMesh.Index.Segments
import HaloMesh.Region
import HaloMesh.Proofs.FieldLines
import Mathlib.Logic.Function.Iterate

/-! Walks over the cells of a region and over the integers of segments. A walk has at every moment a list of what it
has still to visit. A step takes the first element off that list, and the walk is done when nothing is left. -/

namespace HaloMesh

/-- A walk that still has to visit the elements of `rest`, one after the other. -/
structure Visits {σ β : Type} (isDone : σ → Bool) (here : σ → β) (advance : σ → σ) (Valid : σ → Prop)
    (rest : σ → List β) : Prop where
  kept : ∀ s, Valid s → Valid (advance s)
  step : ∀ s, Valid s → rest s = if isDone s then [] else here s :: rest (advance s)
  stays : ∀ s, isDone s = true → advance s = s

namespace Visits

variable {σ β : Type} {isDone : σ → Bool} {here : σ → β} {advance : σ → σ} {Valid : σ → Prop} {rest : σ → List β} {s : σ}

theorem isDone_iff (visits : Visits isDone here advance Valid rest) (valid : Valid s) :
    isDone s = true ↔ rest s = [] := by
  rw [visits.step s valid]
  cases isDone s <;> simp

theorem rest_advance (visits : Visits isDone here advance Valid rest) (valid : Valid s) :
    rest (advance s) = (rest s).drop 1 := by
  rw [visits.step s valid]
  cases done : isDone s with
  | true => rw [visits.stays s done, (visits.isDone_iff valid).mp done]; rfl
  | false => simp

theorem iterate (visits : Visits isDone here advance Valid rest) (valid : Valid s) (k : Nat) :
    Valid (advance^[k] s) ∧ rest (advance^[k] s) = (rest s).drop k := by
  induction k generalizing s with
  | zero => exact ⟨valid, rfl⟩
  | succ k ih =>
    obtain ⟨later, left⟩ := ih (visits.kept s valid)
    rw [Function.iterate_succ_apply]
    exact ⟨later, by rw [left, visits.rest_advance valid, List.drop_drop, Nat.add_comm]⟩

theorem isDone_iterate (visits : Visits isDone here advance Valid rest) (valid : Valid s) (k : Nat) :
    isDone (advance^[k] s) = true ↔ (rest s).length ≤ k := by
  obtain ⟨later, left⟩ := visits.iterate valid k
  rw [visits.isDone_iff later, left, List.drop_eq_nil_iff]

/-- What is visited at each step. -/
theorem getElem?_rest (visits : Visits isDone here advance Valid rest) (valid : Valid s) (k : Nat) :
    (rest s)[k]? = if isDone (advance^[k] s) then none else some (here (advance^[k] s)) := by
  obtain ⟨later, left⟩ := visits.iterate valid k
  have first : (rest s)[k]? = (rest (advance^[k] s))[0]? := by rw [left, List.getElem?_drop, Nat.add_zero]
  rw [first, visits.step _ later]
  split <;> rfl

end Visits

namespace Index

theorem span_nil {lo hi : Int} (empty : hi < lo) : span lo hi = [] := by
  rw [← List.length_eq_zero_iff, length_span]
  omega

theorem span_cons {lo hi : Int} (some_ : lo ≤ hi) : span lo hi = lo :: span (lo + 1) hi := by
  have size : (hi + 1 - lo).toNat = (hi + 1 - (lo + 1)).toNat + 1 := by omega
  rw [span, span, size, List.range_succ_eq_map, List.map_cons, List.map_map, Nat.cast_zero, Int.add_zero]
  congr 1
  apply List.map_congr_left
  intro k _
  simp only [Function.comp_apply, Nat.succ_eq_add_one]
  push_cast
  omega

namespace Walk

/-- The integers that a walk has still to visit. -/
def rest (w : Walk) : List Int := (w.segments[w.segment]?).elim [] fun s =>
  span w.current s.last ++ (w.segments.drop (w.segment + 1)).flatMap fun t => span t.first t.last

/-- A walk within segments that have an integer, and a word behind their last one. -/
structure Valid (w : Walk) : Prop where
  segments : ∀ s ∈ w.segments, s.first ≤ s.last
  ends : ∀ s ∈ w.segments, s.last < greatest
  current : ∀ s, w.segments[w.segment]? = some s → w.current ≤ s.last

theorem Valid.next_eq {w : Walk} (valid : w.Valid) {s : Segment} (here : w.segments[w.segment]? = some s) :
    next w.current = w.current + 1 :=
  next_of_lt (Int.lt_of_le_of_lt (valid.current s here) (valid.ends s (List.mem_of_getElem? here)))

theorem isDone_iff {w : Walk} : w.isDone = true ↔ w.segments[w.segment]? = none := by
  simp [isDone]

theorem visits : Visits isDone current advance Valid rest where
  kept w valid := by
    unfold advance
    cases here : w.segments[w.segment]? with
    | none => exact valid
    | some s =>
      dsimp only
      split
      next inside =>
        refine ⟨valid.segments, valid.ends, fun t found => ?_⟩
        obtain rfl : s = t := Option.some.inj (here.symm.trans found)
        exact inside
      next =>
        cases later : w.segments[w.segment + 1]? with
        | none => exact ⟨valid.segments, valid.ends, fun t found => by simp [later] at found⟩
        | some t =>
          refine ⟨valid.segments, valid.ends, fun t' found => ?_⟩
          obtain rfl : t = t' := Option.some.inj (later.symm.trans found)
          exact valid.segments t (List.mem_of_getElem? later)
  step w valid := by
    cases here : w.segments[w.segment]? with
    | none => rw [if_pos (isDone_iff.mpr here), rest, here]; rfl
    | some s =>
      have going : ¬ w.isDone = true := by rw [isDone_iff, here]; exact nofun
      rw [if_neg going, rest, here, advance, here]
      simp only [Option.elim_some, valid.next_eq here]
      rw [span_cons (valid.current s here), List.cons_append]
      congr 1
      split
      next => simp [rest, here]
      next last =>
        rw [span_nil (by omega), List.nil_append]
        cases later : w.segments[w.segment + 1]? with
        | none =>
          rw [List.drop_eq_nil_of_le (by simpa using later)]
          simp [rest, later]
        | some t =>
          obtain ⟨within, same⟩ := List.getElem?_eq_some_iff.mp later
          rw [List.drop_eq_getElem_cons within, same]
          simp [rest, later]
  stays w done := by
    rw [advance, isDone_iff.mp done]

/-- One turn of the loop. -/
theorem collect_turn (met : List Int) (w : Walk) :
    collect met w = if w.isDone then met.reverse else collect (w.current :: met) w.advance := by
  have : Nonempty (List Int × Walk) := ⟨(met, w)⟩
  change List.reverse (Prod.fst (repeatM (m := Id) _ (met, w))) = _
  rw [repeatM_eq_of_monadTail]
  cases done : w.isDone with
  | true =>
    simp only [repeatM.body, done, Bool.not_true, Bool.false_eq_true, ↓reduceIte]
    rfl
  | false =>
    simp only [repeatM.body, done, Bool.not_false, ↓reduceIte]
    rfl

/-- A valid walk ends: each step takes one integer off those it has still to visit. -/
theorem collect_eq {w : Walk} (valid : w.Valid) (met : List Int) : collect met w = met.reverse ++ w.rest := by
  induction left : w.rest generalizing w met with
  | nil => rw [collect_turn, if_pos ((visits.isDone_iff valid).mpr left), List.append_nil]
  | cons i later ih =>
    have going : ¬ w.isDone = true := by rw [visits.isDone_iff valid, left]; exact nofun
    obtain ⟨rfl, same⟩ := List.cons.inj (left.symm.trans ((visits.step w valid).trans (if_neg going)))
    rw [collect_turn, if_neg going, ih (visits.kept w valid) _ same.symm, List.reverse_cons, List.append_assoc,
      List.singleton_append]

variable (segments : List Segment)

/-- The integers of segments in the order given. -/
def listed : List Int := segments.flatMap fun s => span s.first s.last

/-- Segments that a walk comes to the end of: none with an integer goes up to the greatest word. -/
def Ending : Prop := ∀ s ∈ segments, s.isEmpty = false → s.last < greatest

theorem listed_nonempty : listed (segments.filter fun s => !s.isEmpty) = listed segments := by
  induction segments with
  | nil => rfl
  | cons s rest ih =>
    simp only [listed, List.flatMap_cons] at ih ⊢
    rw [List.filter_cons, ← ih]
    split
    next => rfl
    next empty =>
      have none : s.last < s.first := by simpa [Segment.isEmpty] using empty
      rw [span_nil none, List.nil_append]

theorem restart_valid {w : Walk} (nonempty : ∀ s ∈ w.segments, s.first ≤ s.last) (ends : ∀ s ∈ w.segments, s.last < greatest) :
    w.restart.Valid ∧ w.restart.rest = listed w.segments := by
  obtain ⟨segments, segment, current⟩ := w
  cases segments with
  | nil => exact ⟨⟨nofun, nofun, fun s found => by simp [restart] at found⟩, rfl⟩
  | cons s rest =>
    refine ⟨⟨nonempty, ends, fun t found => ?_⟩, by simp [restart, Walk.rest, listed]⟩
    obtain rfl : s = t := by simpa [restart] using found
    exact nonempty s List.mem_cons_self

theorem segments_restart (w : Walk) : w.restart.segments = w.segments := by
  unfold restart
  split <;> simp_all

theorem segments_through : (through segments).segments = segments.filter fun s => !s.isEmpty := segments_restart _

theorem mem_through {s : Segment} : s ∈ (through segments).segments ↔ s ∈ segments ∧ s.first ≤ s.last := by
  rw [segments_through, List.mem_filter]
  simp [Segment.isEmpty]

variable {segments} in
theorem Ending.through (ending : Ending segments) : ∀ s ∈ (through segments).segments, s.last < greatest := by
  intro s member
  obtain ⟨among, some_⟩ := (mem_through segments).mp member
  exact ending s among (by simpa [Segment.isEmpty] using some_)

/-- Restarted and advanced, a walk meets the integers of a list, and then it is done. -/
def Lists (w : Walk) (xs : List Int) : Prop := ∀ k : Nat,
  xs[k]? = if (advance^[k] w.restart).isDone then none else some (advance^[k] w.restart).current

variable {segments} in
theorem indices_through (ending : Ending segments) : (through segments).indices = listed segments := by
  obtain ⟨valid, left⟩ := restart_valid (fun s member => ((mem_through segments).mp member).2) ending.through
  rw [indices, collect_eq valid, left, segments_through, listed_nonempty]
  rfl

variable {segments} in
/-- A walk through segments meets their integers one after the other. -/
theorem lists_through (ending : Ending segments) : (through segments).Lists (through segments).indices := by
  obtain ⟨valid, left⟩ := restart_valid (fun s member => ((mem_through segments).mp member).2) ending.through
  rw [segments_through, listed_nonempty] at left
  rw [indices_through ending, ← left]
  exact visits.getElem?_rest valid

end Walk
end Index

namespace Region
open Index (span)

/-- The cells that a walk over a region has still to visit. -/
def rest (r : Region) : List (Int × Int) :=
  if r.xe < r.x then []
  else (span r.y r.ye).map (fun y => (r.x, y)) ++ (span (r.x + 1) r.xe).flatMap fun x => (span r.ys r.ye).map fun y => (x, y)

/-- A walk within a region that does not end at the greatest word. -/
structure Valid (r : Region) : Prop where
  words : r.xe < Index.greatest ∧ r.ye < Index.greatest
  inside : r.x ≤ r.xe → r.ys ≤ r.ye ∧ r.y ≤ r.ye

theorem visits : Visits isDone (fun r => (r.x, r.y)) advance Valid rest where
  kept r valid := by
    have words := valid.words
    unfold advance
    split
    next => exact valid
    next going =>
      have inside := valid.inside (by simpa [isDone] using going)
      split
      next => exact ⟨words, fun _ => ⟨inside.1, inside.1⟩⟩
      next more => exact ⟨words, fun _ => ⟨inside.1, by dsimp only; omega⟩⟩
  step r valid := by
    obtain ⟨wordX, wordY⟩ := valid.words
    by_cases done : r.xe < r.x
    · simp [rest, isDone, done]
    have inside := valid.inside (by omega)
    have nextX : Index.next r.x = r.x + 1 := Index.next_of_lt (by omega)
    have nextY : Index.next r.y = r.y + 1 := Index.next_of_lt (by omega)
    have going : r.isDone = false := by simpa [isDone] using done
    rw [going, rest, if_neg done, Index.span_cons inside.2, List.map_cons, List.cons_append, if_neg Bool.false_ne_true]
    congr 1
    rw [advance, going, nextX, nextY, if_neg Bool.false_ne_true]
    split
    next top =>
      rw [Index.span_nil top, List.map_nil, List.nil_append, rest]
      dsimp only
      split
      next last => rw [Index.span_nil last, List.flatMap_nil]
      next => rw [Index.span_cons (show r.x + 1 ≤ r.xe by omega), List.flatMap_cons]
    next => rw [rest, if_neg done]
  stays r done := by rw [advance, if_pos done]

theorem collect_eq {r : Region} (valid : r.Valid) (steps : Nat) : collect steps r = r.rest.take steps := by
  induction steps generalizing r with
  | zero => simp [collect]
  | succ steps ih =>
    rw [collect, visits.step r valid]
    split
    · rfl
    · rw [ih (visits.kept r valid), List.take_succ_cons]

/-- The rectangle of a region. -/
def block (r : Region) : Block := ⟨r.xs, r.xe, r.ys, r.ye⟩

theorem contains_iff {r : Region} {x y : Int} : r.contains x y = true ↔ r.block.Contains x y := by
  simp [contains, Block.Contains, block, and_assoc]

variable {r : Region} (words : r.xe < Index.greatest ∧ r.ye < Index.greatest)
include words

theorem restart_valid : r.restart.Valid ∧ r.restart.rest = r.block.columns := by
  obtain ⟨wordX, wordY⟩ := words
  by_cases empty : r.isEmpty = true
  · have after : r.xe < Index.next r.xe := by rw [Index.next_of_lt wordX]; omega
    have start : r.restart.x = Index.next r.xe := by rw [restart, empty]; rfl
    have none : r.block.columns = [] := by
      apply List.eq_nil_iff_forall_not_mem.mpr
      intro c member
      have within := Block.mem_columns.mp (show (c.1, c.2) ∈ _ from member)
      simp only [isEmpty, Bool.or_eq_true, decide_eq_true_eq] at empty
      simp only [Block.Contains, block] at within
      omega
    have done : r.restart.xe < r.restart.x := start ▸ after
    exact ⟨⟨⟨wordX, wordY⟩, fun inside => absurd inside (by omega)⟩, by rw [rest, if_pos done, none]⟩
  · have start : r.restart.x = r.xs := by rw [restart, if_neg empty]
    simp only [isEmpty, Bool.or_eq_true, decide_eq_true_eq, not_or, not_lt] at empty
    refine ⟨⟨⟨wordX, wordY⟩, fun _ => ⟨empty.2, empty.2⟩⟩, ?_⟩
    have going : ¬ r.restart.xe < r.restart.x := by rw [start]; exact not_lt.mpr empty.1
    have cells : r.block.columns = (span r.xs r.xe).flatMap fun x => (span r.ys r.ye).map fun y => (x, y) := rfl
    rw [rest, if_neg going, start, cells, Index.span_cons empty.1, List.flatMap_cons]
    rfl

omit words in
theorem length_columns : (r.block.columns.length : Int) = r.count := by
  have each : r.block.columns.length = (r.xe + 1 - r.xs).toNat * (r.ye + 1 - r.ys).toNat := by
    simp [Block.columns, block, List.length_flatMap, List.map_const']
  rw [each, count]
  split
  next empty =>
    simp only [isEmpty, Bool.or_eq_true, decide_eq_true_eq] at empty
    have none : (r.xe + 1 - r.xs).toNat = 0 ∨ (r.ye + 1 - r.ys).toNat = 0 := by omega
    rcases none with none | none <;> simp [none]
  next some_ =>
    simp only [isEmpty, Bool.or_eq_true, decide_eq_true_eq, not_or, not_lt] at some_
    push_cast
    rw [Int.toNat_of_nonneg (by omega), Int.toNat_of_nonneg (by omega)]
    ring

/-- The walk over a region meets its cells one after the other, in as many steps as it has cells. -/
theorem cells_walk : r.cells = r.block.columns ∧ ∀ k : Nat,
    (r.cells[k]? = if (advance^[k] r.restart).isDone then none
      else some ((advance^[k] r.restart).x, (advance^[k] r.restart).y)) ∧
    ((advance^[k] r.restart).isDone = true ↔ r.count ≤ k) := by
  obtain ⟨valid, left⟩ := restart_valid words
  have listed : r.cells = r.block.columns := by
    rw [cells, collect_eq valid, left, ← length_columns, Int.toNat_natCast, List.take_length]
  refine ⟨listed, fun k => ⟨?_, ?_⟩⟩
  · rw [listed, ← left]
    exact visits.getElem?_rest valid k
  · rw [visits.isDone_iterate valid, left, ← length_columns]
    omega

end Region
end HaloMesh
