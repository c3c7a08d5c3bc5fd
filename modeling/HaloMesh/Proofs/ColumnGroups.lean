import Mathlib.Data.Finset.Card
import HaloMesh.Proofs.GroupMeetings
import HaloMesh.Proofs.LineRanks

/-! The columns of a block grouped by the ranks of their field lines. Every column is in one group, and the ranks of a line
all have its columns in the group of these ranks. The groups stand in the order of their written rank lists, which is one
order for all ranks: a rank that goes through them meets the others of each group there. -/

namespace HaloMesh
open Transport

variable {α : Type}

/-! Rank lists are told apart by their text. -/

/-- The text of a list of ranks. -/
def ranksText (ranks : List Int) : String := Text.bracketed (ranks.map toString)

theorem ranksText_injective {first second : List Nat} (some_ : first ≠ []) (some_' : second ≠ [])
    (same : ranksText (first.map Nat.cast) = ranksText (second.map Nat.cast)) : first = second := by
  have digits (ranks : List Nat) : (ranks.map Nat.cast).map (toString : Int → String) = ranks.map Nat.repr := by
    rw [List.map_map]
    rfl
  have inner : " ".intercalate (first.map Nat.repr) = " ".intercalate (second.map Nat.repr) := by
    simpa [ranksText, Text.bracketed, digits] using same
  have plain (ranks : List Nat) (text : String) (member : text ∈ ranks.map Nat.repr) : ' ' ∉ text.toList := by
    obtain ⟨n, -, rfl⟩ := List.mem_map.mp member
    rw [Nat.toList_repr]
    intro blank
    cases Nat.isDigit_of_mem_toDigits (by decide) (by decide) blank
  have blank : " " = String.singleton ' ' := rfl
  have parts := String.toList_split_intercalate (plain first)
  rw [← blank, inner, blank, String.toList_split_intercalate (plain second), if_neg (by simpa using some_'),
    if_neg (by simpa using some_)] at parts
  refine (List.map_injective_iff.mpr fun a b equal => ?_) parts.symm
  have read := congrArg (fun text => Nat.ofDigitChars 10 text.toList 0) equal
  simpa only [Nat.toList_repr, Nat.ofDigitChars_ten_toDigits] using read

namespace Mesh

/-- Columns grouped by the ranks of their field lines. -/
structure Grouped (e : Endpoint) (ranksOf : Int → List Int) (columns : List Int) (groups : List ColumnGroup) : Prop where
  endpoint : ∀ g ∈ groups, g.communicator.endpoint = e
  distinct : (groups.map fun g => g.communicator.ranks).Nodup
  chosen : ∀ g ∈ groups, g.columns = columns.filter fun x => ranksOf x = g.communicator.ranks
  some_ : ∀ g ∈ groups, ∃ x ∈ columns, ranksOf x = g.communicator.ranks
  all : ∀ x ∈ columns, ∃ g ∈ groups, g.communicator.ranks = ranksOf x

theorem addColumn_cases (c : Communicator) (x : Int) (groups : List ColumnGroup) :
    (∃ before g after, groups = before ++ g :: after ∧ g.communicator.ranks = c.ranks ∧
      addColumn c x groups = before ++ { g with columns := g.columns ++ [x] } :: after) ∨
    ((∀ g ∈ groups, g.communicator.ranks ≠ c.ranks) ∧ addColumn c x groups = groups ++ [⟨c, [x]⟩]) := by
  induction groups with
  | nil => exact .inr ⟨by simp, rfl⟩
  | cons g rest ih =>
    by_cases here : g.communicator.ranks = c.ranks
    · exact .inl ⟨[], g, rest, rfl, here, by rw [addColumn, if_pos here]; rfl⟩
    · rw [addColumn, if_neg here]
      rcases ih with ⟨before, g', after, rfl, same, added⟩ | ⟨others, added⟩
      · exact .inl ⟨g :: before, g', after, rfl, same, by rw [added]; rfl⟩
      · refine .inr ⟨fun g' member => ?_, by rw [added]; rfl⟩
        rcases List.mem_cons.mp member with rfl | later
        · exact here
        · exact others g' later

namespace Grouped

variable {e : Endpoint} {ranksOf : Int → List Int} {columns : List Int} {groups : List ColumnGroup}

theorem filter_concat (x : Int) (ranks : List Int) : (columns ++ [x]).filter (fun x => ranksOf x = ranks) =
    columns.filter (fun x => ranksOf x = ranks) ++ if ranksOf x = ranks then [x] else [] := by
  rw [List.filter_append, List.filter_singleton]
  by_cases same : ranksOf x = ranks <;> simp [same]

theorem some_concat (grouped : Grouped e ranksOf columns groups) (x : Int) {g : ColumnGroup} (member : g ∈ groups) :
    ∃ x' ∈ columns ++ [x], ranksOf x' = g.communicator.ranks := by
  obtain ⟨x', among, same⟩ := grouped.some_ g member
  exact ⟨x', List.mem_append_left _ among, same⟩

/-- A further column of one of the groups. -/
theorem add_known {before after : List ColumnGroup} {g : ColumnGroup}
    (grouped : Grouped e ranksOf columns (before ++ g :: after)) {x : Int} (same : g.communicator.ranks = ranksOf x) :
    Grouped e ranksOf (columns ++ [x]) (before ++ { g with columns := g.columns ++ [x] } :: after) := by
  have member : g ∈ before ++ g :: after := List.mem_append_right _ List.mem_cons_self
  -- only the group of the column changes
  have split (h : ColumnGroup) (among : h ∈ before ++ { g with columns := g.columns ++ [x] } :: after) :
      (h ∈ before ++ g :: after ∧ ranksOf x ≠ h.communicator.ranks) ∨ h = { g with columns := g.columns ++ [x] } := by
    have apart := grouped.distinct
    rw [List.map_append, List.map_cons, List.nodup_middle, List.nodup_cons, ← List.map_append, same] at apart
    have other (old : h ∈ before ++ after) : ranksOf x ≠ h.communicator.ranks := fun equal =>
      apart.1 (List.mem_map.mpr ⟨h, old, equal.symm⟩)
    rcases List.mem_append.mp among with first | rest
    · exact .inl ⟨List.mem_append_left _ first, other (List.mem_append_left _ first)⟩
    · rcases List.mem_cons.mp rest with here | last
      · exact .inr here
      · exact .inl ⟨List.mem_append_right _ (List.mem_cons_of_mem _ last), other (List.mem_append_right _ last)⟩
  refine ⟨fun h among => ?_, ?_, fun h among => ?_, fun h among => ?_, fun x' among => ?_⟩
  · rcases split h among with ⟨old, -⟩ | rfl
    · exact grouped.endpoint h old
    · exact grouped.endpoint g member
  · simpa using grouped.distinct
  · rcases split h among with ⟨old, other⟩ | rfl
    · rw [filter_concat, if_neg other, List.append_nil]
      exact grouped.chosen h old
    · rw [filter_concat, if_pos same.symm]
      exact congrArg (· ++ [x]) (grouped.chosen g member)
  · rcases split h among with ⟨old, -⟩ | rfl
    · exact grouped.some_concat x old
    · exact ⟨x, List.mem_append_right _ (List.mem_singleton_self x), same.symm⟩
  · rcases List.mem_append.mp among with old | new
    · obtain ⟨h, among, equal⟩ := grouped.all x' old
      rcases List.mem_append.mp among with first | rest
      · exact ⟨h, List.mem_append_left _ first, equal⟩
      · rcases List.mem_cons.mp rest with rfl | last
        · exact ⟨_, List.mem_append_right _ List.mem_cons_self, equal⟩
        · exact ⟨h, List.mem_append_right _ (List.mem_cons_of_mem _ last), equal⟩
    · obtain rfl := List.mem_singleton.mp new
      exact ⟨_, List.mem_append_right _ List.mem_cons_self, same⟩

/-- The first column of a group. -/
theorem add_new (grouped : Grouped e ranksOf columns groups) {x : Int}
    (others : ∀ g ∈ groups, g.communicator.ranks ≠ ranksOf x) :
    Grouped e ranksOf (columns ++ [x]) (groups ++ [⟨⟨e, ranksOf x⟩, [x]⟩]) := by
  have fresh : columns.filter (fun x' => ranksOf x' = ranksOf x) = [] := by
    refine List.filter_eq_nil_iff.mpr fun x' among equal => ?_
    obtain ⟨g, member, found⟩ := grouped.all x' among
    exact others g member (found.trans (of_decide_eq_true equal))
  refine ⟨fun h among => ?_, ?_, fun h among => ?_, fun h among => ?_, fun x' among => ?_⟩
  · rcases List.mem_append.mp among with old | new
    · exact grouped.endpoint h old
    · rw [List.mem_singleton.mp new]
  · rw [List.map_append, List.map_singleton, List.nodup_append]
    refine ⟨grouped.distinct, List.nodup_singleton _, fun ranks old ranks' new equal => ?_⟩
    obtain ⟨g, member, rfl⟩ := List.mem_map.mp old
    exact others g member (equal.trans (List.mem_singleton.mp new))
  · rcases List.mem_append.mp among with old | new
    · rw [filter_concat, if_neg fun equal => others h old equal.symm, List.append_nil]
      exact grouped.chosen h old
    · rw [List.mem_singleton.mp new, filter_concat, if_pos rfl, fresh, List.nil_append]
  · rcases List.mem_append.mp among with old | new
    · exact grouped.some_concat x old
    · rw [List.mem_singleton.mp new]
      exact ⟨x, List.mem_append_right _ (List.mem_singleton_self x), rfl⟩
  · rcases List.mem_append.mp among with old | new
    · obtain ⟨h, member, equal⟩ := grouped.all x' old
      exact ⟨h, List.mem_append_left _ member, equal⟩
    · obtain rfl := List.mem_singleton.mp new
      exact ⟨_, List.mem_append_right _ (List.mem_singleton_self _), rfl⟩

theorem add (grouped : Grouped e ranksOf columns groups) (x : Int) :
    Grouped e ranksOf (columns ++ [x]) (addColumn ⟨e, ranksOf x⟩ x groups) := by
  rcases addColumn_cases ⟨e, ranksOf x⟩ x groups with ⟨before, g, after, rfl, same, added⟩ | ⟨others, added⟩
  · exact added ▸ grouped.add_known same
  · exact added ▸ grouped.add_new others

theorem perm (grouped : Grouped e ranksOf columns groups) {sorted : List ColumnGroup} (perm : sorted.Perm groups) :
    Grouped e ranksOf columns sorted where
  endpoint g member := grouped.endpoint g (perm.mem_iff.mp member)
  distinct := (perm.map _).nodup_iff.mpr grouped.distinct
  chosen g member := grouped.chosen g (perm.mem_iff.mp member)
  some_ g member := grouped.some_ g (perm.mem_iff.mp member)
  all x member := by
    obtain ⟨g, among, same⟩ := grouped.all x member
    exact ⟨g, perm.mem_iff.mpr among, same⟩

end Grouped

end Mesh

namespace Layout
open Mesh (Grouped)

variable {l : Layout α} {meshes : Nat → Mesh α} {i j : Nat}

/-- The ranks of the field line through a local column. -/
def ranksOf (l : Layout α) (meshes : Nat → Mesh α) (i : Nat) (x : Int) : List Int :=
  l.lineRanks i (decide ((meshes i).globalX x < l.shape.topology.separatrix))

/-- How many lines of ranks are not written after some ranks. -/
def textLevel (l : Layout α) (ranks : List Int) : Nat :=
  ((Finset.range l.count ×ˢ Finset.univ).filter fun p : Nat × Bool =>
    ranksText (l.lineRanks p.1 p.2) ≤ ranksText ranks).card

theorem self_mem_lineRanks (inside : i < l.count) (inner : Bool) : (i : Int) ∈ l.lineRanks i inner :=
  natCast_mem_lineRanks.mpr ⟨inside, rfl, rfl⟩

theorem textLevel_lt {inner inner' : Bool} (first : i < l.count) (second : j < l.count)
    (ordered : ranksText (l.lineRanks i inner) ≤ ranksText (l.lineRanks j inner'))
    (other : l.lineRanks i inner ≠ l.lineRanks j inner') :
    l.textLevel (l.lineRanks i inner) < l.textLevel (l.lineRanks j inner') := by
  have some_ (k : Nat) (inside : k < l.count) (side : Bool) :
      ((List.range l.count).filter fun j => l.column j = l.column k ∧ l.line j side = l.line k side) ≠ [] := by
    intro none_
    have member := l.self_mem_lineRanks inside side
    rw [lineRanks, none_] at member
    cases member
  refine Finset.card_lt_card ((Finset.ssubset_iff_of_subset fun p member => ?_).mpr ⟨(j, inner'), ?_, fun member => ?_⟩)
  · rw [Finset.mem_filter] at member ⊢
    exact ⟨member.1, String.le_trans member.2 ordered⟩
  · rw [Finset.mem_filter, Finset.mem_product, Finset.mem_range]
    exact ⟨⟨second, Finset.mem_univ _⟩, String.le_refl _⟩
  · have text := String.le_antisymm ordered (Finset.mem_filter.mp member).2
    exact other (congrArg (List.map Nat.cast) (ranksText_injective (some_ i first inner) (some_ j second inner') text))

variable (words : l.InWords) (given : ∀ i < l.count, l.Assigns i (meshes i)) (aimed : l.rows.Aimed)
  (number : (l.count : Int) ≤ Text.wordEnd)
include words given aimed number

theorem yCommunicator_eq (inside : i < l.count) (x : Int) :
    (meshes i).yCommunicator x = .ok ⟨⟨i, l.count⟩, l.ranksOf meshes i x⟩ := by
  have reached : (l.ranksOf meshes i x).find? (fun r => !(⟨i, l.count⟩ : Endpoint).reaches r) = none := by
    refine List.find?_eq_none.mpr fun r member => ?_
    obtain ⟨j, within, rfl, -⟩ := mem_lineRanks.mp member
    simp [Endpoint.reaches, within]
  have own : (i : Int) ∈ l.ranksOf meshes i x := l.self_mem_lineRanks inside _
  rw [Mesh.yCommunicator, yRanks_eq words given inside aimed number, rank_eq (given i inside)]
  change (Communicator.make ⟨i, l.count⟩ (l.ranksOf meshes i x)).mapError Failure.returned = _
  rw [Communicator.make, reached]
  simp only [own, ↓reduceIte]
  rfl

theorem exists_columnGroups (inside : i < l.count) : ∃ groups, (meshes i).columnGroups = .ok groups ∧
    Grouped ⟨i, l.count⟩ (l.ranksOf meshes i) (Index.span 0 ((meshes i).localNx - 1)) groups ∧
    groups.Pairwise fun g h => ranksText g.communicator.ranks ≤ ranksText h.communicator.ranks := by
  have folded (columns done : List Int) (groups : List Mesh.ColumnGroup)
      (grouped : Grouped ⟨i, l.count⟩ (l.ranksOf meshes i) done groups) :
      ∃ groups', columns.foldlM (fun groups x => do return Mesh.addColumn (← (meshes i).yCommunicator x) x groups) groups =
        Except.ok groups' ∧ Grouped ⟨i, l.count⟩ (l.ranksOf meshes i) (done ++ columns) groups' := by
    induction columns generalizing done groups with
    | nil => exact ⟨groups, rfl, by rwa [List.append_nil]⟩
    | cons x rest ih =>
      obtain ⟨groups', later, grouped'⟩ := ih (done ++ [x]) _ (grouped.add x)
      refine ⟨groups', ?_, by rwa [← List.append_cons] at grouped'⟩
      rw [List.foldlM_cons, yCommunicator_eq words given aimed number inside]
      exact later
  obtain ⟨groups, collected, grouped⟩ := folded (Index.span 0 ((meshes i).localNx - 1)) [] []
    ⟨by simp, by simp, by simp, by simp, by simp⟩
  refine ⟨_, Outcome.bind_eq_ok.mpr ⟨groups, collected, rfl⟩, grouped.perm (List.mergeSort_perm _ _), ?_⟩
  refine (List.pairwise_mergeSort (fun a b c first second => ?_) (fun a b => ?_) groups).imp of_decide_eq_true
  · exact decide_eq_true (String.le_trans (of_decide_eq_true first) (of_decide_eq_true second))
  · rw [Bool.or_eq_true, decide_eq_true_eq, decide_eq_true_eq]
    exact String.le_total ..

omit words aimed number in
/-- Blocks above one another have the same columns. -/
theorem same_columns (inside : i < l.count) (within : j < l.count) (column : l.column j = l.column i) :
    (meshes j).localNx = (meshes i).localNx ∧ ∀ x, (meshes j).globalX x = (meshes i).globalX x := by
  have left : l.left j = l.left i := by simp only [Layout.left, column]
  refine ⟨?_, fun x => ?_⟩
  · obtain ⟨-, _, _, _, _, _, -, -, here⟩ := given i inside
    obtain ⟨-, _, _, _, _, _, -, -, there⟩ := given j within
    rw [here, there]
    simp only [block, breadth, column, left]
  · rw [Mesh.globalX, Mesh.globalX, (offset_eq (given i inside)).1, (offset_eq (given j within)).1, left]

omit words aimed number in
theorem ranksOf_eq (inside : i < l.count) {x : Int} (member : (j : Int) ∈ l.ranksOf meshes i x) :
    l.ranksOf meshes j x = l.ranksOf meshes i x := by
  obtain ⟨within, column, -⟩ := natCast_mem_lineRanks.mp member
  rw [ranksOf, (same_columns given inside within column).2 x]
  exact lineRanks_eq member

omit words aimed number in
/-- The members of a group group the same columns. -/
theorem ranksOf_iff (inside : i < l.count) (within : j < l.count) {ranks : List Int} (first : (i : Int) ∈ ranks)
    (second : (j : Int) ∈ ranks) {x : Int} : l.ranksOf meshes j x = ranks ↔ l.ranksOf meshes i x = ranks := by
  constructor
  · intro same
    rw [← ranksOf_eq given within (same ▸ first)] at same
    exact same
  · intro same
    rw [← ranksOf_eq given inside (same ▸ second)] at same
    exact same

omit words aimed number in
/-- The ranks meet in the groups of their columns, in one order. -/
theorem meetings {groups : Nat → List Mesh.ColumnGroup}
    (grouped : ∀ i < l.count,
      Grouped ⟨i, l.count⟩ (l.ranksOf meshes i) (Index.span 0 ((meshes i).localNx - 1)) (groups i))
    (sorted : ∀ i < l.count, (groups i).Pairwise fun g h => ranksText g.communicator.ranks ≤ ranksText h.communicator.ranks) :
    Meetings l.count (fun i => (groups i).map fun g => g.communicator.ranks) l.textLevel where
  distinct i inside ranks member := by
    obtain ⟨g, among, rfl⟩ := List.mem_map.mp member
    obtain ⟨x, -, same⟩ := (grouped i inside).some_ g among
    rw [← same]
    exact (l.pairwise_lineRanks i _).imp ne_of_lt
  own i inside ranks member := by
    obtain ⟨g, among, rfl⟩ := List.mem_map.mp member
    obtain ⟨x, -, same⟩ := (grouped i inside).some_ g among
    rw [← same]
    exact l.self_mem_lineRanks inside _
  attended i inside ranks member r met := by
    obtain ⟨g, among, rfl⟩ := List.mem_map.mp member
    obtain ⟨x, column, same⟩ := (grouped i inside).some_ g among
    rw [← same] at met
    obtain ⟨j, within, rfl, aside, line⟩ := mem_lineRanks.mp met
    obtain ⟨h, there, equal⟩ := (grouped j within).all x ((same_columns given inside within aside).1 ▸ column)
    exact ⟨j, within, rfl, List.mem_map.mpr ⟨h, there, equal.trans ((ranksOf_eq given inside met).trans same)⟩⟩
  rising i inside := by
    refine List.pairwise_map.mpr (((sorted i inside).and (List.pairwise_map.mp (grouped i inside).distinct)).imp_of_mem
      fun {g h} first second ordered => ?_)
    obtain ⟨x, -, here⟩ := (grouped i inside).some_ g first
    obtain ⟨x', -, there⟩ := (grouped i inside).some_ h second
    rw [← here, ← there] at ordered ⊢
    exact textLevel_lt inside inside ordered.1 ordered.2

end Layout
end HaloMesh
