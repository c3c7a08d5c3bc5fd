import HaloMesh.Proofs.LineMeans
import HaloMesh.Proofs.OutstandingHandles

/-! Computations that all ranks make together, with exchanges one after another. Between two exchanges every rank works on
its own. The messages of an exchange are told from those of the others by how many have gone before. -/

namespace HaloMesh
open Transport Program

variable {α : Type}

/-! Every interleaving comes to an end, so that there is only one end to come to. -/

namespace Transport

variable {μ β : Type}

theorem progress_set {ranks : List (Program μ β)} {rank : Nat} {p q : Program μ β} (found : ranks[rank]? = some p)
    (moved : Program.Child q p) : Progress (ranks.set rank q) ranks := by
  induction ranks generalizing rank with
  | nil => cases found
  | cons first rest ih =>
    cases rank with
    | zero =>
      obtain rfl : first = p := Option.some.inj found
      exact .here rest moved
    | succ rank => exact .later first (ih found)

/-- From every situation some moves lead to one without moves. -/
theorem exists_last (state : Situation μ β) :
    ∃ last, Relation.ReflTransGen Moves state last ∧ ∀ next, ¬ Moves last next := by
  obtain ⟨ranks, box⟩ := state
  induction ranks using progress_wf.induction generalizing box with
  | _ ranks ih =>
    by_cases ended : ∃ next, Moves (⟨ranks, box⟩ : Situation μ β) next
    · obtain ⟨next, @⟨_, _, box', p, q, rank, found, stepped⟩⟩ := ended
      obtain ⟨last, reached, still⟩ := ih _ (progress_set found (Program.child_of_step? stepped)) box'
      exact ⟨last, .head (.answered rank found stepped) reached, still⟩
    · exact ⟨_, .refl, fun next moved => ended ⟨next, moved⟩⟩

/-- All interleavings have the same results. -/
theorem EndsIn.unique {start : Situation μ β} {results results' : Nat → β} (first : EndsIn start results)
    (second : EndsIn start results') {i : Nat} (inside : i < start.ranks.length) : results i = results' i := by
  obtain ⟨last, reached, still⟩ := exists_last start
  obtain ⟨ranks, -⟩ := (first last reached).resolve_left fun ⟨next, moved⟩ => still next moved
  obtain ⟨ranks', -⟩ := (second last reached).resolve_left fun ⟨next, moved⟩ => still next moved
  have same := congrArg (fun l => l[i]?) (ranks.symm.trans ranks')
  simp only [List.getElem?_map, List.getElem?_range inside, Option.map_some, Option.some.injEq,
    Program.finished.injEq] at same
  exact same

end Transport

namespace Transport.Step

/-- The steps of some exchanges in a row, each ended before the next is begun. -/
def rounds (first count : Nat) : List Step :=
  (List.range' first count).flatMap fun n => [.ask 0 n, .get 0 n, .ask 1 n, .get 1 n]

theorem rounds_add (first count more : Nat) :
    rounds first (count + more) = rounds first count ++ rounds (first + count) more := by
  simp only [rounds, ← List.flatMap_append, List.range'_append_1]

theorem rounds_one (n : Nat) : rounds n 1 = [.ask 0 n, .get 0 n, .ask 1 n, .get 1 n] := by
  rw [rounds, List.range'_one, List.flatMap_singleton]

theorem rounds_succ (count : Nat) :
    rounds 0 (count + 1) = rounds 0 count ++ [.ask 0 count] ++ [.get 0 count] ++ [.ask 1 count] ++ [.get 1 count] := by
  rw [rounds_add, rounds_one, Nat.zero_add]
  simp

theorem ask_mem_rounds {kind n count : Nat} : .ask kind n ∈ rounds 0 count ↔ kind < 2 ∧ n < count := by
  simp only [rounds, List.mem_flatMap, List.mem_range'_1]
  constructor
  · intro holds
    obtain ⟨k, within, member⟩ := holds
    simp at member
    omega
  · intro holds
    refine ⟨n, by omega, ?_⟩
    simp
    omega

theorem get_mem_rounds {kind n count : Nat} : .get kind n ∈ rounds 0 count ↔ kind < 2 ∧ n < count := by
  simp only [rounds, List.mem_flatMap, List.mem_range'_1]
  constructor
  · intro holds
    obtain ⟨k, within, member⟩ := holds
    simp at member
    omega
  · intro holds
    refine ⟨n, by omega, ?_⟩
    simp
    omega

theorem length_asks_rounds {kind : Nat} (known : kind < 2) (count : Nat) : (asks kind (rounds 0 count)).length = count := by
  induction count with
  | zero => rfl
  | succ count ih =>
    obtain rfl | rfl : kind = 0 ∨ kind = 1 := by omega
    all_goals simp only [rounds_succ, asks_append, asks_ask, asks_get, List.length_append, ih]; rfl

theorem orderly_rounds (count : Nat) : Orderly (rounds 0 count) := by
  induction count with
  | zero => exact orderly_nil
  | succ count ih =>
    have columns := ih.ask 0
    rw [length_asks_rounds (by decide)] at columns
    have columns' : Orderly (rounds 0 count ++ [.ask 0 count] ++ [.get 0 count]) :=
      columns.get (by simp) (by simp [get_mem_rounds])
    have rows := columns'.ask 1
    have length : (asks 1 (rounds 0 count ++ [.ask 0 count] ++ [.get 0 count])).length = count := by
      simp only [asks_append, asks_ask, asks_get, List.length_append, length_asks_rounds (show 1 < 2 by decide)]
      rfl
    rw [length] at rows
    rw [rounds_succ]
    exact rows.get (by simp) (by simp [get_mem_rounds])

end Transport.Step

open Transport.Step (rounds)

namespace RankM

theorem fieldAt_path {ref : FieldRef} {f : Field α} {r : Rank α} (found : r.store.get? ref = some f) :
    Path ((fieldAt ref).run.run r) [] (.finished (.ok f, r)) := by
  rw [fieldAt_run, found]
  exact .here _

theorem vectorAt_path {refs : Vector3 FieldRef} {v : Vector3 (Field α)} {r : Rank α}
    (found : refs.components.map r.store.get? = v.components.map some) (kind : refs.covariant = v.covariant) :
    Path ((refs.mapM fieldAt).run.run r) [] (.finished (.ok v, r)) := by
  obtain ⟨rx, ry, rz, flag⟩ := refs
  obtain ⟨x, y, z, flag'⟩ := v
  obtain rfl : flag = flag' := kind
  obtain ⟨foundX, rest⟩ := List.cons.inj found
  obtain ⟨foundY, rest⟩ := List.cons.inj rest
  have foundZ := (List.cons.inj rest).1
  exact bind_path (fieldAt_path foundX) (bind_path (fieldAt_path foundY) (bind_path (fieldAt_path foundZ) (.here _)))

variable [Scalar α]

/-- A field put into the store, communicated and fetched again. -/
def communicatedField (f : Field α) : RankM α (Field α) := do
  let ref ← newField f
  communicate [ref] false
  fieldAt ref

/-- The components of a vector put into the store, communicated as one group and fetched again. -/
def communicatedVector (v : Vector3 (Field α)) : RankM α (Vector3 (Field α)) := do
  let refs ← v.mapM newField
  communicate refs.components false
  refs.mapM fieldAt

end RankM

variable [Scalar α]

/-- All ranks of a world, each with its own program, before the first step. -/
def together {α β : Type} (count : Nat) (ranks : Nat → Rank α) (program : Nat → RankM α β) :
    Situation (Array α) (Outcome β × Rank α) :=
  ⟨(List.range count).map fun i => (program i).run.run (ranks i), MailBox.empty⟩

/-- Programs that exchange some batches in a row end in every interleaving. -/
theorem endsIn_of_rounds {β : Type} {l : Layout α} {meshes : Nat → Mesh α} (given : ∀ i < l.count, l.Assigns i (meshes i))
    (room : ∀ i < l.count, (meshes i).HasRoom) {batches : List (Nat → List (Field α))}
    (staged : ∀ b ∈ batches, ∃ size, size ≠ 0 ∧ Staged l meshes size b) {start : Nat → Program (Array α) β}
    {results : Nat → β} (paths : ∀ i < l.count, ∀ parcelsOf : Nat → Nat → List (Parcel (Array α)),
      (∀ (k : Nat) b, batches[k]? = some b → parcelsOf 0 k = Mesh.parcels meshes b (meshes i).shape.xSides i ∧
        parcelsOf 1 k = Mesh.parcels meshes (Mesh.afterX meshes b) (meshes i).shape.ySides i) →
      Path (start i) (Step.script i parcelsOf (rounds 0 batches.length)) (.finished (results i))) :
    EndsIn ⟨(List.range l.count).map start, MailBox.empty⟩ results := by
  let batch (n : Nat) : Nat → List (Field α) := batches[n]?.getD fun _ => []
  let stagedIn (kind n : Nat) : Nat → List (Field α) := if kind = 0 then batch n else Mesh.afterX meshes (batch n)
  have ready (kind n : Nat) : ∃ size, Staged l meshes size (stagedIn kind n) := by
    have whole : ∃ size, Staged l meshes size (batch n) := by
      cases found : batches[n]? with
      | none =>
        have nothing : Staged l meshes 0 fun _ => [] := ⟨given, room, fun _ _ => rfl, fun _ _ f member => by cases member⟩
        exact ⟨0, by simpa only [batch, found, Option.getD_none] using nothing⟩
      | some b =>
        obtain ⟨size, -, whole⟩ := staged b (List.mem_of_getElem? found)
        exact ⟨size, by simpa only [batch, found, Option.getD_some] using whole⟩
    obtain ⟨size, whole⟩ := whole
    refine ⟨size, ?_⟩
    dsimp only [stagedIn]
    split
    · exact whole
    · exact whole.afterX
  have planned := Mesh.parcels_planned given ready (Step.orderly_rounds batches.length) fun kind n asked =>
    Step.get_mem_rounds.mpr (Step.ask_mem_rounds.mp asked)
  intro state reached
  have length : ((List.range l.count).map start).length = l.count := by simp
  rw [length]
  refine planned.agreement.runs length rfl (fun i p found => ?_) reached
  have inside : i < l.count := length ▸ (List.getElem?_eq_some_iff.mp found).1
  obtain rfl : start i = p := by simpa [inside] using found
  refine paths i inside _ fun k b present => ?_
  simp only [stagedIn, batch, present, Option.getD_some, GridShape.phaseSides, ↓reduceIte, one_ne_zero, and_self]

/-- All ranks of a layout end a computation with these results, after exchanges of some batches in a row. -/
structure Exchanging (l : Layout α) (meshes : Nat → Mesh α) {β : Type} (batches : List (Nat → List (Field α)))
    (c : Nat → RankM α β) (before : Nat → Rank α) (results : Nat → Outcome β × Rank α) : Prop where
  staged : ∀ b ∈ batches, ∃ size, size ≠ 0 ∧ Staged l meshes size b
  paths : ∀ i < l.count, ∀ (first : Nat) (parcelsOf : Nat → Nat → List (Parcel (Array α))),
    (∀ (k : Nat) b, batches[k]? = some b →
      parcelsOf 0 (first + k) = Mesh.parcels meshes b (meshes i).shape.xSides i ∧
        parcelsOf 1 (first + k) = Mesh.parcels meshes (Mesh.afterX meshes b) (meshes i).shape.ySides i) →
    Path ((c i).run.run (before i)) (Step.script i parcelsOf (rounds first batches.length)) (.finished (results i))

/-- All ranks of a layout end a computation with these results, after some exchanges in a row. -/
def Together (l : Layout α) (meshes : Nat → Mesh α) {β : Type} (c : Nat → RankM α β) (before : Nat → Rank α)
    (results : Nat → Outcome β × Rank α) : Prop := ∃ batches, Exchanging l meshes batches c before results

namespace Together

variable {β γ : Type} {l : Layout α} {meshes : Nat → Mesh α} {c : Nat → RankM α β} {before middle : Nat → Rank α}
  {results : Nat → Outcome β × Rank α}

theorem alone (each : ∀ i < l.count, Path ((c i).run.run (before i)) [] (.finished (results i))) :
    Together l meshes c before results :=
  ⟨[], ⟨fun _ member => absurd member List.not_mem_nil, fun i inside _ _ _ => each i inside⟩⟩

/-- A rank that ends together with others has a way to its end. -/
theorem exists_path (together : Together l meshes c before results) {i : Nat} (inside : i < l.count) :
    ∃ events, Path ((c i).run.run (before i)) events (.finished (results i)) := by
  obtain ⟨batches, -, paths⟩ := together
  let columns (k : Nat) := (batches[k]?).elim [] fun b => Mesh.parcels meshes b (meshes i).shape.xSides i
  let rows (k : Nat) := (batches[k]?).elim [] fun b => Mesh.parcels meshes (Mesh.afterX meshes b) (meshes i).shape.ySides i
  refine ⟨_, paths i inside 0 (fun phase k => if phase = 0 then columns k else rows k) fun k b found => ?_⟩
  simp [columns, rows, found]

theorem bind {b : Nat → β} {next : Nat → β → RankM α γ} {results : Nat → Outcome γ × Rank α}
    (first : Together l meshes c before fun i => (.ok (b i), middle i))
    (second : Together l meshes (fun i => next i (b i)) middle results) :
    Together l meshes (fun i => c i >>= next i) before results := by
  obtain ⟨batches, staged, paths⟩ := first
  obtain ⟨batches', staged', paths'⟩ := second
  refine ⟨batches ++ batches', ⟨fun b member => (List.mem_append.mp member).elim (staged b) (staged' b),
    fun i inside start parcelsOf known => ?_⟩⟩
  rw [List.length_append, Step.rounds_add, Step.script, List.flatMap_append]
  refine RankM.bind_path (paths i inside start parcelsOf fun k b found => known k b ?_)
    (paths' i inside (start + batches.length) parcelsOf fun k b found => ?_)
  · rwa [List.getElem?_append_left (List.getElem?_eq_some_iff.mp found).1]
  · rw [Nat.add_assoc]
    refine known (batches.length + k) b ?_
    rwa [List.getElem?_append_right (Nat.le_add_right ..), Nat.add_sub_cancel_left]

/-- Results may be told in another way. -/
theorem congr {results' : Nat → Outcome β × Rank α} (together : Together l meshes c before results)
    (same : ∀ i < l.count, results i = results' i) : Together l meshes c before results' := by
  obtain ⟨batches, staged, paths⟩ := together
  refine ⟨batches, ⟨staged, fun i inside first parcelsOf known => ?_⟩⟩
  rw [← same i inside]
  exact paths i inside first parcelsOf known

theorem labelled {b : Nat → β} (together : Together l meshes c before fun i => (.ok (b i), middle i))
    (activity : Activity) :
    Together l meshes (fun i => RankM.labelled activity (c i)) before fun i => (.ok (b i), middle i) := by
  obtain ⟨batches, staged, paths⟩ := together
  exact ⟨batches, ⟨staged, fun i inside first parcelsOf known =>
    RankM.labelled_path (paths i inside first parcelsOf known) activity⟩⟩

section Exchanges

variable {size : Nat} {fields : Nat → List (Field α)} (ready : Staged l meshes size fields) (some_ : size ≠ 0)
  (own : ∀ i < l.count, (before i).mesh = meshes i)
include ready some_

private theorem round {i : Nat} (inside : i < l.count) {first : Nat} {parcelsOf : Nat → Nat → List (Parcel (Array α))}
    (known : ∀ (k : Nat) b, [fields][k]? = some b →
      parcelsOf 0 (first + k) = Mesh.parcels meshes b (meshes i).shape.xSides i ∧
        parcelsOf 1 (first + k) = Mesh.parcels meshes (Mesh.afterX meshes b) (meshes i).shape.ySides i) :
    Path ((meshes i).exchange (fields i) false) (Step.script i parcelsOf (rounds first 1))
      (.finished (.ok (Mesh.afterY meshes (Mesh.afterX meshes fields) i))) := by
  obtain ⟨columns, rows⟩ := known 0 fields rfl
  rw [Nat.add_zero] at columns rows
  have script : Step.script i parcelsOf (rounds first 1) = Step.events i parcelsOf (.ask 0 first) ++
      Step.script i parcelsOf [.get 0 first, .ask 1 first, .get 1 first] := by
    rw [Step.rounds_one, Step.script, List.flatMap_cons]
    rfl
  rw [script]
  exact (ready.starts inside false columns).bind_finished (ready.finishes_rows inside some_ columns rows)

include own

theorem exchanged : Together l meshes (fun i => RankM.exchanged (fields i)) before fun i =>
    (.ok (Mesh.afterY meshes (Mesh.afterX meshes fields) i), before i) := by
  refine ⟨[fields], ⟨fun b member => List.mem_singleton.mp member ▸ ⟨size, some_, ready⟩,
    fun i inside first parcelsOf known => ?_⟩⟩
  have path := round ready some_ inside known
  rw [← own i inside] at path
  change Path ((RankM.mesh >>= fun m => RankM.tryTalk (m.exchange (fields i) false)).run.run (before i)) _ _
  rw [RankM.run_bind, RankM.mesh_run]
  exact RankM.tryTalk_path path (before i)

theorem communicate {refs : Nat → List FieldRef} {values : Nat → List (Field α)}
    (found : ∀ i < l.count, (refs i).mapM (before i).store.get? = some (fields i))
    (left : ∀ i < l.count, Mesh.afterY meshes (Mesh.afterX meshes fields) i = values i) :
    Together l meshes (fun i => RankM.communicate (refs i) false) before fun i => (.ok (),
      { before i with store := (before i).store.putAllValues (refs i) (values i) }) := by
  refine ⟨[fields], ⟨fun b member => List.mem_singleton.mp member ▸ ⟨size, some_, ready⟩,
    fun i inside first parcelsOf known => ?_⟩⟩
  have path := round ready some_ inside known
  rw [← own i inside, left i inside] at path
  dsimp only
  rw [RankM.communicate_run (found i inside), ← List.append_nil (Step.script _ _ _)]
  exact path.bind_finished (.here _)

omit some_ own in
/-- A group of different fields is found again with the values that the exchange has left. -/
private theorem fetch_exchanged {i : Nat} (inside : i < l.count) {refs : List FieldRef} {store : Store α}
    (found : refs.mapM store.get? = some (fields i)) (distinct : refs.Nodup) {values : List (Field α)}
    (left : Mesh.afterY meshes (Mesh.afterX meshes fields) i = values) :
    refs.map (store.putAllValues refs values).get? = values.map some := by
  have length : values.length = size := by
    rw [← left]
    exact (ready.afterX.phase_lines inside _).1
  have same : refs.length = size := by
    rw [← ready.lengths i inside]
    simpa using congrArg List.length (Store.mapM_get?.mp found)
  have kept (k : Nat) (f : Field α) (present : (fields i)[k]? = some f) : ∃ g, values[k]? = some g ∧ Field.Alike f g := by
    obtain ⟨g, halfway, first, -⟩ := (ready.phase_lines inside (meshes i).shape.xSides).2 k f present
    obtain ⟨h, last, second, -⟩ := (ready.afterX.phase_lines inside (meshes i).shape.ySides).2 k g halfway
    exact ⟨h, left ▸ last, first.trans second⟩
  obtain ⟨-, put⟩ := Store.get?_putAllValues_of_alike found kept
  apply List.ext_getElem?
  intro k
  rw [List.getElem?_map, List.getElem?_map]
  cases named : refs[k]? with
  | none =>
    have beyond := List.getElem?_eq_none_iff.mp named
    rw [List.getElem?_eq_none (by omega : values.length ≤ k)]
    rfl
  | some ref =>
    have inside := (List.getElem?_eq_some_iff.mp named).1
    have last : ref ∉ refs.drop (k + 1) := by
      intro again
      obtain ⟨n, later⟩ := List.getElem?_of_mem again
      rw [List.getElem?_drop] at later
      have equal := (List.getElem?_inj inside distinct).mp (named.trans later.symm)
      omega
    rw [Option.map_some, put k ref named last, List.getElem?_eq_getElem (by omega : k < values.length)]
    rfl

end Exchanges

section Communicated

variable (given : ∀ i < l.count, l.Assigns i (meshes i)) (room : ∀ i < l.count, (meshes i).HasRoom)
  (own : ∀ i < l.count, (before i).mesh = meshes i)
include given room own

theorem communicatedField {f : Nat → Field α} (shaped : ∀ i < l.count, (f i).extents = (meshes i).extents) :
    ∃ (after : Nat → Field α) (stores : Nat → Store α),
      Together l meshes (fun i => RankM.communicatedField (f i)) before
        (fun i => (.ok (after i), { before i with store := stores i })) ∧
      Filled l.count meshes f after := by
  have ready : Staged l meshes 1 fun i => [f i] :=
    ⟨given, room, fun _ _ => rfl, fun i inside g member => List.mem_singleton.mp member ▸ shaped i inside⟩
  have one (i : Nat) (inside : i < l.count) : ∃ g, Mesh.afterY meshes (Mesh.afterX meshes fun i => [f i]) i = [g] :=
    List.length_eq_one_iff.mp (ready.afterX.phase_lines inside _).1
  have : Nonempty (Field α) := ⟨f 0⟩
  choose! after left using one
  let ref (i : Nat) : FieldRef := ⟨(before i).store.fields.size⟩
  let held (i : Nat) : Store α := ⟨(before i).store.fields.push (f i)⟩
  let store (i : Nat) : Store α := (held i).putAllValues [ref i] [after i]
  have found (i : Nat) : [ref i].mapM (held i).get? = some [f i] := by simp [ref, held, Store.get?]
  refine ⟨after, store, ?_, ready.filled (k := 0) (fun _ _ => rfl) fun i inside => congrArg (·[0]?) (left i inside)⟩
  have stored : Together l meshes (fun i => RankM.newField (f i)) before
      fun i => (.ok (ref i), { before i with store := held i }) := alone fun i _ => .here _
  have sent : Together l meshes (fun i => RankM.communicate [ref i] false) (fun i => { before i with store := held i })
      fun i => (.ok (), { before i with store := store i }) := by
    apply communicate ready one_ne_zero
    · exact own
    · exact fun i _ => found i
    · exact left
  have fetched (i : Nat) (inside : i < l.count) : (store i).get? (ref i) = some (after i) :=
    (List.cons.inj (fetch_exchanged ready inside (found i) (List.nodup_singleton _) (left i inside))).1
  exact stored.bind (sent.bind (alone fun i inside =>
    RankM.fieldAt_path (r := { before i with store := store i }) (fetched i inside)))

theorem communicatedVector {v : Nat → Vector3 (Field α)}
    (shaped : ∀ i < l.count, ∀ a, ((v i).component a).extents = (meshes i).extents) :
    ∃ (after : Nat → Vector3 (Field α)) (stores : Nat → Store α),
      Together l meshes (fun i => RankM.communicatedVector (v i)) before
        (fun i => (.ok (after i), { before i with store := stores i })) ∧
      (∀ i, (after i).covariant = (v i).covariant) ∧
      ∀ a, Filled l.count meshes (fun i => (v i).component a) fun i => (after i).component a := by
  have ready : Staged l meshes 3 fun i => (v i).components := by
    refine ⟨given, room, fun _ _ => rfl, fun i inside f member => ?_⟩
    simp only [Vector3.components, List.mem_cons, List.not_mem_nil, or_false] at member
    rcases member with rfl | rfl | rfl
    · exact shaped i inside .x
    · exact shaped i inside .y
    · exact shaped i inside .z
  have three (i : Nat) (inside : i < l.count) :
      ∃ x y z, Mesh.afterY meshes (Mesh.afterX meshes fun i => (v i).components) i = [x, y, z] :=
    List.length_eq_three.mp (ready.afterX.phase_lines inside _).1
  have : Nonempty (Field α) := ⟨(v 0).x⟩
  choose! x y z left using three
  let after (i : Nat) : Vector3 (Field α) := ⟨x i, y i, z i, (v i).covariant⟩
  let first (i : Nat) := (before i).store.alloc (v i).x
  let second (i : Nat) := (first i).2.alloc (v i).y
  let third (i : Nat) := (second i).2.alloc (v i).z
  let refs (i : Nat) : Vector3 FieldRef := ⟨(first i).1, (second i).1, (third i).1, (v i).covariant⟩
  let held (i : Nat) : Store α := (third i).2
  let store (i : Nat) : Store α := (held i).putAllValues (refs i).components (after i).components
  have found (i : Nat) : (refs i).components.mapM (held i).get? = some (v i).components := by
    rw [Store.mapM_get?]
    simp [refs, held, third, second, first, Store.alloc, Store.get?, Vector3.components, Array.getElem?_push]
    grind
  have distinct (i : Nat) : (refs i).components.Nodup := by
    simp [refs, third, second, first, Store.alloc, Vector3.components]
    omega
  have stored : Together l meshes (fun i => (v i).mapM RankM.newField) before
      fun i => (.ok (refs i), { before i with store := held i }) := alone fun i _ => .here _
  have sent : Together l meshes (fun i => RankM.communicate (refs i).components false)
      (fun i => { before i with store := held i })
      fun i => (.ok (), { before i with store := store i }) := by
    apply communicate ready (by decide)
    · exact own
    · exact fun i _ => found i
    · exact left
  have fetched (i : Nat) (inside : i < l.count) :
      (refs i).components.map (store i).get? = (after i).components.map some :=
    fetch_exchanged ready inside (found i) (distinct i) (left i inside)
  have again (i : Nat) (inside : i < l.count) : Path (((refs i).mapM RankM.fieldAt).run.run { before i with store := store i }) []
      (.finished (.ok (after i), { before i with store := store i })) :=
    RankM.vectorAt_path (fetched i inside) rfl
  refine ⟨after, store, stored.bind (sent.bind (alone again)), fun _ => rfl, fun a => ?_⟩
  cases a
  · exact ready.filled (k := 0) (fun _ _ => rfl) fun i inside => congrArg (·[0]?) (left i inside)
  · exact ready.filled (k := 1) (fun _ _ => rfl) fun i inside => congrArg (·[1]?) (left i inside)
  · exact ready.filled (k := 2) (fun _ _ => rfl) fun i inside => congrArg (·[2]?) (left i inside)

end Communicated

theorem ends (sequence : Together l meshes c before results) (given : ∀ i < l.count, l.Assigns i (meshes i))
    (room : ∀ i < l.count, (meshes i).HasRoom) :
    EndsIn (together l.count before c) results := by
  obtain ⟨batches, staged, paths⟩ := sequence
  refine endsIn_of_rounds given room staged fun i inside parcelsOf known => paths i inside 0 parcelsOf ?_
  simpa only [Nat.zero_add] using known

end Together

end HaloMesh
