import HaloMesh.Proofs.HaloFilling
import HaloMesh.Proofs.StoredFields
import Mathlib.Tactic.IntervalCases

/-! Communication fills the guard cells of stored fields. All ranks of a world take part with groups of as
many fields; in whatever order they are answered, none of them gets stuck or fails. -/

namespace HaloMesh
open Transport Program

variable {α : Type}

/-- The ranks of a world with their meshes, and on each of them a group of as many stored fields that have the
extents of the mesh. -/
structure Collective (count : Nat) (meshes : Nat → Mesh α) (ranks : Nat → Rank α) (groups : Nat → List FieldRef)
    (size : Nat) (before : Nat → Nat → Field α) : Prop where
  own : ∀ i < count, (ranks i).mesh = meshes i
  sizes : ∀ i < count, (groups i).length = size
  held : ∀ i < count, ∀ (k : Nat) ref, (groups i)[k]? = some ref → (ranks i).store.get? ref = some (before i k)
  shaped : ∀ i < count, ∀ k < size, (before i k).extents = (meshes i).extents

/-- The store of a rank holds a field of its group in the last place that names it, and all else as before. -/
structure Stores (group : List FieldRef) (after : Nat → Field α) (s s' : Store α) : Prop where
  others : ∀ ref, ref ∉ group → s'.get? ref = s.get? ref
  named : ∀ (k : Nat) ref, group[k]? = some ref → ref ∉ group.drop (k + 1) → s'.get? ref = some (after k)

namespace Collective

variable {count size : Nat} {meshes : Nat → Mesh α} {ranks : Nat → Rank α} {groups : Nat → List FieldRef}
  {before : Nat → Nat → Field α} {i : Nat}

theorem found (calls : Collective count meshes ranks groups size before) (inside : i < count) :
    (groups i).mapM (ranks i).store.get? = some ((List.range size).map (before i)) := by
  rw [Store.mapM_get?]
  apply List.ext_getElem?
  intro k
  rw [List.getElem?_map, List.getElem?_map, List.getElem?_map]
  cases named : (groups i)[k]? with
  | none =>
    have beyond : size ≤ k := calls.sizes i inside ▸ List.getElem?_eq_none_iff.mp named
    simp [beyond]
  | some ref =>
    have within : k < size := calls.sizes i inside ▸ (List.getElem?_eq_some_iff.mp named).1
    simp [calls.held i inside k ref named, within]

theorem staged {l : Layout α} (calls : Collective l.count meshes ranks groups size before)
    (given : ∀ i < l.count, l.Assigns i (meshes i)) (room : ∀ i < l.count, (meshes i).HasRoom) :
    Staged l meshes size fun i => (List.range size).map (before i) where
  given := given
  room := room
  lengths i _ := by simp
  shaped i inside f member := by
    obtain ⟨k, within, rfl⟩ := List.mem_map.mp member
    exact calls.shaped i inside k (List.mem_range.mp within)

theorem stores (calls : Collective count meshes ranks groups size before) (inside : i < count) {after : Nat → Field α}
    {values : List (Field α)} (left : ∀ k < size, values[k]? = some (after k))
    (alike : ∀ k < size, Field.Alike (before i k) (after k)) :
    Stores (groups i) after (ranks i).store ((ranks i).store.putAllValues (groups i) values) := by
  have each (k : Nat) (f : Field α) (present : ((List.range size).map (before i))[k]? = some f) :
      ∃ g, values[k]? = some g ∧ Field.Alike f g := by
    have within : k < size := by simpa using (List.getElem?_eq_some_iff.mp present).1
    obtain rfl : before i k = f := by simpa [within] using present
    exact ⟨after k, left k within, alike k within⟩
  obtain ⟨others, put⟩ := Store.get?_putAllValues_of_alike (calls.found inside) each
  refine ⟨others, fun k ref named last => ?_⟩
  rw [put k ref named last]
  exact left k (calls.sizes i inside ▸ (List.getElem?_eq_some_iff.mp named).1)

variable [Scalar α]

theorem communicates {l : Layout α} (calls : Collective l.count meshes ranks groups size before)
    (given : ∀ i < l.count, l.Assigns i (meshes i)) (room : ∀ i < l.count, (meshes i).HasRoom) (inside : i < l.count) :
    let fields := fun i => (List.range size).map (before i)
    Path ((RankM.communicate (groups i) false).run.run (ranks i)) (Parcel.script i (Mesh.phases meshes fields i))
      (.finished (.ok (),
        { ranks i with
          store := (ranks i).store.putAllValues (groups i) (Mesh.afterY meshes (Mesh.afterX meshes fields) i) })) := by
  obtain ⟨first, second, ex, parts, started, finished⟩ := (calls.staged given room).exchange_script inside
  dsimp only
  rw [parts]
  rw [← calls.own i inside] at started finished
  rw [RankM.communicate_run (calls.found inside), ← List.append_nil (first ++ second)]
  exact Path.bind_finished (started.bind_finished finished) (.here _)

end Collective

section Theorem

variable [Scalar α] {count size : Nat} {meshes : Nat → Mesh α} {ranks : Nat → Rank α} {groups : Nat → List FieldRef}
  {before : Nat → Nat → Field α}

/-- In every interleaving, communication ends on all ranks without an error and with all mail delivered, and
every field has its guard cells filled. A guard row follows the inner connections in the columns before the split of its
block. These are the columns before the separatrix if the distance of the separatrix from the block is a word; it need not
be one where the separatrix lies as far below zero as words go. -/
theorem communicate_fills_halo (source : GridSource α) (options : Options α) (warnings : Nat → List String)
    (loaded : ∀ i < count, Mesh.load source options ⟨i, count⟩ = .ok (meshes i, warnings i))
    (room : ∀ i < count, (meshes i).HasRoom) (calls : Collective count meshes ranks groups size before)
    {state : Situation (Array α) (Outcome Unit × Rank α)}
    (reached : Relation.ReflTransGen Moves
      ⟨(List.range count).map fun i => (RankM.communicate (groups i) false).run.run (ranks i), MailBox.empty⟩ state) :
    (∃ next, Moves state next) ∨ ∃ (after : Nat → Nat → Field α) (stores : Nat → Store α),
      state.ranks = (List.range count).map (fun i => .finished (.ok (), { ranks i with store := stores i })) ∧
      (∀ key, (state.box.slot key).parked = []) ∧
      (∀ i < count, Stores (groups i) (after i) (ranks i).store (stores i)) ∧
      ∀ k < size, Filled count meshes (fun i => before i k) fun i => after i k := by
  rcases Nat.eq_zero_or_pos count with rfl | some_
  · -- in a world without ranks nothing ever happens
    rcases reached.cases_head with rfl | ⟨_, ⟨_, found, _⟩, -⟩
    · exact .inr ⟨before, fun i => (ranks i).store, rfl, fun _ => rfl, by simp, fun _ _ => by constructor <;> simp⟩
    · simp at found
  · obtain ⟨l, rfl, assigned⟩ := Layout.of_load (loaded 0 some_)
    have given (i : Nat) (inside : i < l.count) := assigned i inside _ _ (loaded i inside)
    have ready := calls.staged given room
    let fields (i : Nat) := (List.range size).map (before i)
    let values (i : Nat) := Mesh.afterY meshes (Mesh.afterX meshes fields) i
    let after (i k : Nat) := (values i)[k]?.getD (before i k)
    have left (i : Nat) (inside : i < l.count) (k : Nat) (within : k < size) : (values i)[k]? = some (after i k) := by
      have length : (values i).length = size := (ready.afterX.phase_lines inside _).1
      have present := List.getElem?_eq_getElem (length.symm ▸ within : k < (values i).length)
      simp only [after, present, Option.getD_some]
    have filled (k : Nat) (within : k < size) : Filled l.count meshes (fun i => before i k) fun i => after i k :=
      ready.filled (fun i _ => by simp [within]) fun i inside => left i inside k within
    have begins (i : Nat) (p : Program (Array α) (Outcome Unit × Rank α))
        (found : ((List.range l.count).map fun i => (RankM.communicate (groups i) false).run.run (ranks i))[i]? = some p) :
        Path p (Parcel.script i (Mesh.phases meshes fields i))
          (.finished (.ok (), { ranks i with store := (ranks i).store.putAllValues (groups i) (values i) })) := by
      have inside : i < l.count := by simpa using (List.getElem?_eq_some_iff.mp found).1
      obtain rfl : (RankM.communicate (groups i) false).run.run (ranks i) = p := by simpa [inside] using found
      exact calls.communicates given room inside
    rcases ready.coordinated.agreement.runs (by simp) rfl begins reached with moving | ⟨ended, delivered⟩
    · exact .inl moving
    · exact .inr ⟨after, fun i => (ranks i).store.putAllValues (groups i) (values i), ended, delivered,
        fun i inside => calls.stores inside (left i inside) fun k within => (filled k within).alike i inside, filled⟩

end Theorem

/-! The single null on eight ranks, each with one field of its own value. -/

theorem load_singleNull_block (i : Nat) (inside : i < 8) :
    ∃ m, Mesh.load singleNullSource Options.empty ⟨i, 8⟩ = .ok (m, []) ∧ m.HasRoom ∧ m.extents = ⟨6, 6, 1⟩ := by
  interval_cases i
  all_goals
    refine ⟨_, Mesh.load_of_steps read_singleNull settle_singleNull rfl rfl rfl rfl rfl rfl defaults_empty rfl
      transformName_empty, ?_, rfl⟩
    decide

def singleNullField (i : Nat) : Field Whole :=
  { nx := 6, ny := 6, nz := 1, data := Array.replicate 36 ⟨i⟩, loc := .centre, aligned := false
    data_size := by rw [Array.size_replicate]; rfl }

def singleNullRank (m : Mesh Whole) (i : Nat) : Rank Whole :=
  { Rank.ofMesh m [] with store := ⟨#[singleNullField i]⟩ }

theorem singleNull_calls : ∃ meshes : Nat → Mesh Whole,
    (∀ i : Nat, i < 8 → Mesh.load singleNullSource Options.empty ⟨i, 8⟩ = .ok (meshes i, []) ∧ (meshes i).HasRoom) ∧
      Collective 8 meshes (fun i => singleNullRank (meshes i) i) (fun _ => [⟨0⟩]) 1 fun i _ => singleNullField i := by
  have block (i : Nat) : ∃ m, i < 8 → Mesh.load singleNullSource Options.empty ⟨i, 8⟩ = .ok (m, []) ∧
      m.HasRoom ∧ m.extents = ⟨6, 6, 1⟩ := by
    by_cases inside : i < 8
    · obtain ⟨m, loaded⟩ := load_singleNull_block i inside
      exact ⟨m, fun _ => loaded⟩
    · obtain ⟨m, -⟩ := load_singleNull_block 0 (by omega)
      exact ⟨m, fun within => absurd within inside⟩
  choose meshes loaded using block
  refine ⟨meshes, fun i inside => ⟨(loaded i inside).1, (loaded i inside).2.1⟩, fun _ _ => rfl, fun _ _ => rfl, ?_,
    fun i inside _ _ => (loaded i inside).2.2.symm⟩
  intro i _ k ref named
  obtain ⟨rfl, rfl⟩ : k = 0 ∧ ref = ⟨0⟩ := by
    cases k with
    | zero => exact ⟨rfl, by simpa using named.symm⟩
    | succ k => simp at named
  rfl

theorem communicate_fills_singleNull : ∃ meshes : Nat → Mesh Whole,
    (∀ i : Nat, i < 8 → Mesh.load singleNullSource Options.empty ⟨i, 8⟩ = .ok (meshes i, [])) ∧
    ∀ state, Relation.ReflTransGen Moves ⟨(List.range 8).map fun i =>
        (RankM.communicate [⟨0⟩] false).run.run (singleNullRank (meshes i) i), MailBox.empty⟩ state →
      (∃ next, Moves state next) ∨ ∃ (after : Nat → Nat → Field Whole) (stores : Nat → Store Whole),
        state.ranks = (List.range 8).map
          (fun i => .finished (.ok (), { singleNullRank (meshes i) i with store := stores i })) ∧
        (∀ key, (state.box.slot key).parked = []) ∧
        (∀ i < 8, Stores [⟨0⟩] (after i) (singleNullRank (meshes i) i).store (stores i)) ∧
        ∀ k < 1, Filled 8 meshes singleNullField fun i => after i k := by
  obtain ⟨meshes, loaded, calls⟩ := singleNull_calls
  refine ⟨meshes, fun i inside => (loaded i inside).1, fun state reached => ?_⟩
  exact communicate_fills_halo singleNullSource Options.empty (fun _ => []) (fun i inside => (loaded i inside).1)
    (fun i inside => (loaded i inside).2) calls reached

end HaloMesh
