import HaloMesh.Proofs.Communication

/-! What waiting for an exchange does to the fields outside their seams. The exchange works on copies that are
taken when it starts, and in the end the fields get all values of the copies. So every cell that no rank
across has sent gets back the value that it had when the exchange started. -/

namespace HaloMesh
open Transport Program

variable {α : Type} [Scalar α]

/-- Whatever a rank receives, an exchange changes its copies of the fields in seams only. -/
theorem Mesh.exchange_keeps {l : Layout α} {i : Nat} {m : Mesh α} (given : l.Assigns i m) (room : m.HasRoom)
    {fields result : List (Field α)} {xOnly : Bool} {first second : List (Event (Array α))} {ex : Exchange α}
    (started : Path (m.startExchange fields xOnly) first (.finished (.ok ex)))
    (finished : Path (m.finishExchange ex) second (.finished (.ok result))) :
    ∀ (k : Nat) (f : Field α), fields[k]? = some f → f.extents = m.extents ∧ ∃ g, result[k]? = some g ∧
      Field.Alike f g ∧ ∀ x y, f.HasColumn x y → ¬ m.Seam x y → g.line x y = f.line x y := by
  have reaches (sides : List Side) := Layout.reaches_sides given sides
  obtain ⟨shaped, posted, sides, -, rfl⟩ := (startExchange_path (m.xLegs_eq ▸ reaches _) fields xOnly ex).mp started
  obtain ⟨heard, rfl, sizes, rest⟩ := (finishExchange_path (m.yLegs_eq ▸ reaches _)).mp finished
  rw [xLegs_eq] at sides
  obtain ⟨length, once⟩ := afterPhase_kept given room shaped ⟨sides, sizes⟩
  rcases rest with ⟨-, -, rfl⟩ | ⟨-, -, later, all, -, rfl⟩
  · exact fun k f found => ⟨shaped f (List.mem_of_getElem? found), once k f found⟩
  · have shapedToo := afterPhase_shaped given room shaped ⟨sides, sizes⟩
    rw [yLegs_eq] at all
    obtain ⟨-, twice⟩ := afterPhase_kept given room shapedToo all
    intro k f found
    obtain ⟨g, found', alike, kept⟩ := once k f found
    obtain ⟨h, found'', alike', kept'⟩ := twice k g found'
    refine ⟨shaped f (List.mem_of_getElem? found), h, found'', alike.trans alike', fun x y has unseamed => ?_⟩
    rw [kept' x y (alike.hasColumn.mpr has) unseamed, kept x y has unseamed]

private theorem last_mention {β : Type} {items : List β} {item : β} (member : item ∈ items) :
    ∃ k : Nat, items[k]? = some item ∧ item ∉ items.drop (k + 1) := by
  induction items with
  | nil => cases member
  | cons first rest ih =>
    by_cases later : item ∈ rest
    · obtain ⟨k, found, last⟩ := ih later
      exact ⟨k + 1, found, last⟩
    · exact ⟨0, congrArg some ((List.mem_cons.mp member).resolve_right later).symm, later⟩

/-- A rank sends a group, its fields may change, and then it waits without an error. Every cell outside the
seams then holds the value that it had at the send. So the wait leaves those cells alone if and only if none
of them has changed since the send. -/
theorem wait_restores_unseamed (source : GridSource α) (options : Options α) {i count : Nat} (inside : i < count)
    {m : Mesh α} {warnings : List String} (loaded : Mesh.load source options ⟨i, count⟩ = .ok (m, warnings))
    (room : m.HasRoom) {sender sender' waiter waiter' : Rank α} {group : List FieldRef} {xOnly : Bool}
    {h h' : RankM.Handle α} {first second : List (Event (Array α))} (own : sender.mesh = m) (still : waiter.mesh = m)
    (sent : Path ((RankM.send group xOnly).run.run sender) first (.finished (.ok h, sender')))
    (shaped : ∀ ref ∈ group, ∃ f, waiter.store.get? ref = some f ∧ f.extents = m.extents)
    (waited : Path ((RankM.wait h).run.run waiter) second (.finished (.ok (h', none), waiter'))) :
    (∀ ref, ref ∉ group → waiter'.store.get? ref = waiter.store.get? ref) ∧
      ∀ ref ∈ group, ∃ atSend atWait after, sender.store.get? ref = some atSend ∧
        waiter.store.get? ref = some atWait ∧ waiter'.store.get? ref = some after ∧ Field.Alike atWait after ∧
        (∀ x y, after.HasColumn x y → ¬ m.Seam x y → after.line x y = atSend.line x y) ∧
        ((∀ x y, after.HasColumn x y → ¬ m.Seam x y → after.line x y = atWait.line x y) ↔
          ∀ x y, after.HasColumn x y → ¬ m.Seam x y → atWait.line x y = atSend.line x y) := by
  obtain ⟨l, rfl, assigned⟩ := Layout.of_load loaded
  have given := assigned i inside m warnings loaded
  obtain ⟨fields, ex, found, rfl, rfl, started⟩ := RankM.send_path.mp sent
  obtain ⟨-, result, rfl, rfl, finished⟩ := RankM.wait_path.mp waited
  rw [own] at started
  rw [still] at finished
  have keeps := Mesh.exchange_keeps given room started finished
  have copied (k : Nat) (ref : FieldRef) (named : group[k]? = some ref) := Store.found_of_mapM found named
  have sized (k : Nat) (ref : FieldRef) (named : group[k]? = some ref) : ∃ f g : Field α,
      waiter.store.get? ref = some f ∧ result[k]? = some g ∧ g.data.size = f.data.size := by
    obtain ⟨f, -, present⟩ := copied k ref named
    obtain ⟨extents, g, left, alike, -⟩ := keeps k f present
    obtain ⟨f', stored, extents'⟩ := shaped ref (List.mem_of_getElem? named)
    exact ⟨f', g, stored, left, alike.size.trans (Field.size_congr (extents.trans extents'.symm))⟩
  obtain ⟨others, put⟩ := Store.get?_putAllValues group result waiter.store sized
  refine ⟨others, fun ref member => ?_⟩
  obtain ⟨k, named, last⟩ := last_mention member
  obtain ⟨atSend, before, present⟩ := copied k ref named
  obtain ⟨extents, g, left, alike, kept⟩ := keeps k atSend present
  obtain ⟨atWait, stored, extents'⟩ := shaped ref member
  obtain ⟨after, taken, now⟩ := put k ref atWait g named last stored left
  obtain ⟨values, alike'⟩ := Field.withData_ok taken
  have same : atWait.extents = atSend.extents := extents'.trans extents.symm
  simp only [Field.extents, Extents.mk.injEq, Int.natCast_inj] at same
  have restored (x y : Int) (has : after.HasColumn x y) (unseamed : ¬ m.Seam x y) :
      after.line x y = atSend.line x y := by
    have column : atSend.HasColumn x y := by
      rw [alike'.hasColumn, Field.HasColumn, same.1, same.2.1] at has
      exact has
    rw [← kept x y column unseamed]
    exact Field.line_congr (by rw [alike'.ny, alike.ny, same.2.1]) (by rw [alike'.nz, alike.nz, same.2.2]) values x y
  refine ⟨atSend, atWait, after, before, stored, now, alike', restored, ?_, ?_⟩
  · intro unchanged x y has unseamed
    rw [← unchanged x y has unseamed, restored x y has unseamed]
  · intro untouched x y has unseamed
    rw [restored x y has unseamed, untouched x y has unseamed]

/-- On the first rank of the single null every value is overwritten after the send. Outside the seams the wait
still puts the first values back. -/
theorem wait_restores_singleNull : ∃ (m : Mesh Whole) (h h' : RankM.Handle Whole)
    (first second : List (Event (Array Whole))) (waiter : Rank Whole) (after : Field Whole),
      Path ((RankM.send [⟨0⟩] false).run.run (singleNullRank m 0)) first (.finished (.ok h, singleNullRank m 0)) ∧
      Path ((RankM.wait h).run.run (singleNullRank m 5)) second (.finished (.ok (h', none), waiter)) ∧
      waiter.store.get? ⟨0⟩ = some after ∧
      (∀ x y, after.HasColumn x y → ¬ m.Seam x y → after.line x y = (singleNullField 0).line x y) := by
  obtain ⟨meshes, loaded, calls⟩ := singleNull_calls
  obtain ⟨load, room⟩ := loaded 0 (by omega)
  obtain ⟨l, count, assigned⟩ := Layout.of_load load
  have ready : Staged l meshes 1 fun i => [singleNullField i] := by
    rw [← count] at calls
    exact calls.staged (fun i inside => assigned i (count ▸ inside) _ _ (loaded i (count ▸ inside)).1)
      fun i inside => (loaded i (count ▸ inside)).2
  obtain ⟨first, second, ex, -, started, finished⟩ := ready.exchange_script (show 0 < l.count by rw [count]; decide)
  have sent : Path ((RankM.send [⟨0⟩] false).run.run (singleNullRank (meshes 0) 0)) first
      (.finished (.ok ⟨[⟨0⟩], ex, false⟩, singleNullRank (meshes 0) 0)) :=
    RankM.send_path.mpr ⟨[singleNullField 0], ex, rfl, rfl, rfl, started⟩
  have waited := (RankM.wait_path (r := singleNullRank (meshes 0) 5) (h := ⟨[⟨0⟩], ex, false⟩)).mpr
    ⟨rfl, _, rfl, rfl, finished⟩
  have shaped : ∀ ref ∈ [(⟨0⟩ : FieldRef)], ∃ f, (singleNullRank (meshes 0) 5).store.get? ref = some f ∧
      f.extents = (meshes 0).extents := by
    intro ref member
    obtain rfl := List.mem_singleton.mp member
    exact ⟨singleNullField 5, rfl, calls.shaped 0 (by omega) 0 (by omega)⟩
  obtain ⟨-, restored⟩ := wait_restores_unseamed singleNullSource Options.empty (show 0 < 8 by omega) load room rfl rfl
    sent shaped waited
  obtain ⟨atSend, -, after, before, -, now, -, values, -⟩ := restored ⟨0⟩ (List.mem_singleton.mpr rfl)
  obtain rfl : singleNullField 0 = atSend := Option.some.inj before
  exact ⟨meshes 0, _, _, first, second, _, after, sent, waited, now, values⟩

end HaloMesh
