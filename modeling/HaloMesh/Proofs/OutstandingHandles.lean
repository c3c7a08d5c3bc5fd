import HaloMesh.Proofs.Communication
import HaloMesh.Proofs.ExchangePrograms

/-! Several exchanges under way at once. All ranks make the same calls: they may send group after group and wait
for them in any order, as long as it is the same on all of them, and meanwhile communicate other groups or the same
fields again. The messages of all exchanges have the same tags, but their numbers keep them apart, and every field
ends as if its exchange had been the only one. -/

namespace HaloMesh
open Transport Program

variable {α : Type}

/-- In every interleaving all ranks end, with these results and with all mail delivered. -/
def Transport.EndsIn {μ β : Type} (start : Situation μ β) (results : Nat → β) : Prop :=
  ∀ state, Relation.ReflTransGen Moves start state → (∃ next, Moves state next) ∨
    (state.ranks = (List.range start.ranks.length).map fun i => .finished (results i)) ∧
      ∀ key, (state.box.slot key).parked = []

/-- In a world without ranks nothing ever happens. -/
theorem Transport.endsIn_empty {μ β : Type} {start : Situation μ β} (results : Nat → β) (nobody : start.ranks = [])
    (fresh : start.box = MailBox.empty) : EndsIn start results := by
  intro state reached
  rcases reached.cases_head with rfl | ⟨_, ⟨_, found, _⟩, -⟩
  · refine .inr ⟨by rw [nobody]; rfl, fun key => ?_⟩
    rw [fresh]
    rfl
  · simp at nobody
    simp [nobody] at found

/-- Makes the calls of a program, up to the first that fails. -/
def RankM.perform [Scalar α] (refs : Nat → FieldRef) : List Action → List (Handle α) → RankM α Unit
  | [], _ => return ()
  | .send names :: rest, handles => do
    let h ← send (names.map refs) false
    perform refs rest (handles ++ [h])
  | .wait handle :: rest, handles =>
    match handles[handle]? with
    | none => throw .outOfRange
    | some h => do
      match ← wait h with
      | (_, some e) => throw (.returned e)
      | (spent, none) => perform refs rest (handles.set handle spent)
  | .communicate names xOnly :: rest, handles => do
    communicate (names.map refs) xOnly
    perform refs rest handles

/-! What the ranks hold and send. -/

/-- A store with the fields of a rank under their names, and all else as it was. -/
structure Stored (refs : Nat → FieldRef) (size : Nat) (values : Nat → Field α) (base store : Store α) : Prop where
  named : ∀ n < size, store.get? (refs n) = some (values n)
  others : ∀ ref, (∀ n < size, refs n ≠ ref) → store.get? ref = base.get? ref

namespace Stored

variable {refs : Nat → FieldRef} {size : Nat} {values : Nat → Field α} {base store : Store α} {names : List Nat}

theorem fetch (stored : Stored refs size values base store) (known : ∀ n ∈ names, n < size) :
    (names.map refs).mapM store.get? = some (names.map values) := by
  rw [Store.mapM_get?, List.map_map, List.map_map]
  exact List.map_congr_left fun n member => stored.named n (known n member)

theorem putAll (stored : Stored refs size values base store) (known : ∀ n ∈ names, n < size)
    (distinct : ∀ n < size, ∀ n' < size, refs n = refs n' → n = n') (next : Nat → Field α)
    (alike : ∀ n < size, Field.Alike (values n) (next n)) :
    Stored refs size (fun n => if n ∈ names then next n else values n) base
      (store.putAllValues (names.map refs) (names.map next)) := by
  induction names generalizing values store with
  | nil =>
    have same : store.putAllValues ([].map refs) ([].map next) = store := by rw [List.map_nil, Store.putAllValues]; simp
    rw [same]
    simpa using stored
  | cons n others ih =>
    have inside := known n List.mem_cons_self
    have found := stored.named n inside
    have after := Store.get?_putValues found (Field.withData_of_alike (alike n inside))
    have first : Stored refs size (fun k => if k = n then next k else values k) base
        (store.putValues (refs n) (next n)) := by
      refine ⟨fun k within => ?_, fun ref outside => ?_⟩
      · rw [after]
        by_cases same : k = n
        · rw [if_pos same, same, if_pos rfl]
        · rw [if_neg same, if_neg fun equal => same (distinct k within n inside equal), stored.named k within]
      · rw [after, if_neg fun equal => outside n inside equal.symm, stored.others ref outside]
    have later := ih first (fun k member => known k (List.mem_cons_of_mem _ member)) fun k within => by
      split
      · exact Field.Alike.refl _
      · exact alike k within
    refine ⟨fun k within => (later.named k within).trans (congrArg some ?_), later.others⟩
    by_cases same : k = n <;> by_cases among : k ∈ others <;> simp [same, among]

end Stored

/-- The sides on which messages pass in the phases of a kind. -/
def GridShape.phaseSides (g : GridShape α) : Nat → List Side
  | 0 => g.xSides
  | 1 => g.ySides
  | _ => []

section Sides

variable {g : GridShape α} {kind : Nat} {side : Side}

theorem GridShape.opposite_phaseSides (member : side ∈ g.phaseSides kind) : side.opposite ∈ g.phaseSides kind := by
  match kind, member with
  | 0, member => exact opposite_xSides member
  | 1, member => exact opposite_ySides member

theorem GridShape.tagPhase_phaseSides (member : side ∈ g.phaseSides kind) : tagPhase side.tag.number = kind := by
  match kind, member with
  | 0, member => exact tagPhase_xSides member
  | 1, member => exact tagPhase_ySides member

theorem GridShape.nodup_phaseSides : (g.phaseSides kind).Nodup := by
  obtain ⟨columns, rows, -⟩ := List.nodup_append.mp g.nodup_sides
  match kind with
  | 0 => exact columns
  | 1 => exact rows
  | _ + 2 => exact List.nodup_nil

end Sides

/-- The ways of the parcels depend on the mesh alone. -/
theorem Mesh.parcels_routes (meshes : Nat → Mesh α) (staged : Nat → List (Field α)) (sides : List Side) (i : Nat) :
    (parcels meshes staged sides i).map Parcel.route = sides.filterMap fun side =>
      ((meshes i).neighbour? side).map fun d => (d, side.tag.number, side.opposite.tag.number) := by
  rw [parcels, heard, List.map_map, List.map_filterMap]
  refine congrArg (List.filterMap · sides) (funext fun side => ?_)
  rw [Option.map_map]
  rfl

/-- Ranks with one plan agree about the parcels of its phases if all of them stage as many fields for each. -/
theorem Mesh.parcels_planned {l : Layout α} {meshes : Nat → Mesh α} (given : ∀ i < l.count, l.Assigns i (meshes i))
    {staged : Nat → Nat → Nat → List (Field α)} (ready : ∀ kind n, ∃ size, Staged l meshes size (staged kind n))
    {plan : List Step} (orderly : Step.Orderly plan) (answered : ∀ kind n, .ask kind n ∈ plan → .get kind n ∈ plan) :
    Planned l.count plan (fun i kind n => parcels meshes (staged kind n) ((meshes i).shape.phaseSides kind) i)
      tagPhase where
  orderly := orderly
  answered := answered
  sorted i inside kind n p member := by
    obtain ⟨side, among, d, -, rfl⟩ := mem_parcels.mp member
    exact ⟨GridShape.tagPhase_phaseSides among, GridShape.tagPhase_phaseSides (GridShape.opposite_phaseSides among)⟩
  uniform i inside kind n := by rw [parcels_routes, parcels_routes]
  sendTags i inside kind := by
    rw [parcels_tags _ (fun side => side.tag.number) fun _ _ => rfl]
    exact (GridShape.nodup_phaseSides.filter _).map fun _ _ same => Side.tag_number_injective same
  receiveTags i inside kind := by
    rw [parcels_tags _ (fun side => side.opposite.tag.number) fun _ _ => rfl]
    refine (GridShape.nodup_phaseSides.filter _).map fun side other same => ?_
    rw [← side.opposite_opposite, Side.tag_number_injective same, Side.opposite_opposite]
  matched i inside kind n asked p member := by
    obtain ⟨count, whole⟩ := ready kind n
    obtain ⟨j, within, partner, q, among, agreed⟩ :=
      whole.parcels_matched inside (fun _ => GridShape.opposite_phaseSides) member
    refine ⟨j, within, partner, q, ?_, agreed⟩
    rw [Layout.shape_eq (given i inside), ← Layout.shape_eq (given j within)] at among
    exact among

/-- The group of a phase on every rank, filled as far as the exchanges before have filled it. -/
def stagedAs (state : Nat → Fill → Nat → Field α) (batch : List Nat × List (List Nat × Bool)) : Nat → List (Field α) :=
  groupOf state batch.1 (fillAfter batch.2)

variable [Scalar α]

/-- The handle of a ticket on one rank. -/
def Ticket.handle (meshes : Nat → Mesh α) (state : Nat → Fill → Nat → Field α) (refs : Nat → FieldRef) (i : Nat)
    (t : Ticket) : RankM.Handle α :=
  { fields := t.names.map refs
    exchange := Mesh.underway meshes (stagedAs state (t.names, t.before)) false t.number i
    consumed := t.used }

/-- The groups as they are at the start of a phase: as they were sent for an x phase, and with their x guards for
a y phase. -/
def Record.staged (meshes : Nat → Mesh α) (state : Nat → Fill → Nat → Field α) (r : Record) :
    Nat → Nat → Nat → List (Field α)
  | 0, n => stagedAs state (r.columns.getD n ([], []))
  | 1, n => Mesh.afterX meshes (stagedAs state (r.rows.getD n ([], [])))
  | _, _ => fun _ => []

def Record.parcels (meshes : Nat → Mesh α) (state : Nat → Fill → Nat → Field α) (r : Record) (i kind n : Nat) :
    List (Parcel (Array α)) :=
  Mesh.parcels meshes (r.staged meshes state kind n) ((meshes i).shape.phaseSides kind) i

/-- All ranks at the start of a program. -/
def launch (count : Nat) (ranks : Nat → Rank α) (refs : Nat → Nat → FieldRef) (actions : List Action) :
    Situation (Array α) (Outcome Unit × Rank α) :=
  ⟨(List.range count).map fun i => (RankM.perform (refs i) actions []).run.run (ranks i), MailBox.empty⟩

/-- The ranks of a layout with their meshes, and the names of fields that they have in common. -/
structure Crew (l : Layout α) (meshes : Nat → Mesh α) (refs : Nat → Nat → FieldRef) (size : Nat)
    (state : Nat → Fill → Nat → Field α) : Prop where
  given : ∀ i < l.count, l.Assigns i (meshes i)
  room : ∀ i < l.count, (meshes i).HasRoom
  distinct : ∀ i < l.count, ∀ n < size, ∀ n' < size, refs i n = refs i n' → n = n'
  fillings : ∀ n < size, Fillings l meshes (state n)
  shaped : ∀ n < size, ∀ i < l.count, (state n .raw i).extents = (meshes i).extents

namespace Crew

variable {l : Layout α} {meshes : Nat → Mesh α} {refs : Nat → Nat → FieldRef} {size : Nat}
  {state : Nat → Fill → Nat → Field α} {i : Nat}

theorem staged (crew : Crew l meshes refs size state) (batch : List Nat × List (List Nat × Bool))
    (known : ∀ n ∈ batch.1, n < size) : Staged l meshes batch.1.length (stagedAs state batch) :=
  groupOf_staged crew.given crew.room (fun n member => crew.fillings n (known n member))
    (fun n member => crew.shaped n (known n member)) _

theorem alike (crew : Crew l meshes refs size state) (inside : i < l.count) {n : Nat} (known : n < size)
    (first second : Fill) : Field.Alike (state n first i) (state n second i) :=
  ((crew.fillings n known).alike first inside).symm.trans ((crew.fillings n known).alike second inside)

theorem phase_staged (crew : Crew l meshes refs size state) {r : Record} (sound : r.Sound size) (kind n : Nat) :
    ∃ count, Staged l meshes count (r.staged meshes state kind n) := by
  have known (batches : List (List Nat × List (List Nat × Bool)))
      (among : ∀ b ∈ batches, b ∈ r.columns ++ r.rows) : ∀ k ∈ (batches.getD n ([], [])).1, k < size := by
    rw [List.getD_eq_getElem?_getD]
    cases found : batches[n]? with
    | none => simp
    | some b => exact sound.known b (among b (List.mem_of_getElem? found))
  match kind with
  | 0 => exact ⟨_, crew.staged _ (known r.columns fun b => List.mem_append_left _)⟩
  | 1 => exact ⟨_, (crew.staged _ (known r.rows fun b => List.mem_append_right _)).afterX⟩
  | _ + 2 => exact ⟨0, crew.given, crew.room, fun _ _ => rfl, fun _ _ f member => by cases member⟩

/-- The ranks agree about the parcels of a record in which nothing is under way. -/
theorem planned (crew : Crew l meshes refs size state) {r : Record} (sound : r.Sound size)
    (settled : ∀ t ∈ r.tickets, t.used = true) :
    Planned l.count r.plan (r.parcels meshes state) tagPhase := by
  refine Mesh.parcels_planned crew.given (crew.phase_staged sound) sound.numbered.orderly fun kind n asked => ?_
  by_contra missing
  obtain rfl := sound.numbered.underway kind n ⟨asked, missing⟩
  obtain ⟨t, member, unused, -⟩ := (sound.waiting n).mp ⟨asked, missing⟩
  rw [settled t member] at unused
  cases unused

/-- The rest of an exchange fills its group as far as it goes. -/
theorem finishes (crew : Crew l meshes refs size state) (inside : i < l.count) (r : Record) (t : Ticket) (xOnly : Bool)
    (known : ∀ n ∈ t.names, n < size) (current : xOnly = true → t.before = r.done)
    {parcelsOf : Nat → Nat → List (Parcel (Array α))}
    (columns : parcelsOf 0 t.number =
      Mesh.parcels meshes (stagedAs state (t.names, t.before)) (meshes i).shape.xSides i)
    (rows : ¬ (xOnly = true ∨ t.names = []) → parcelsOf 1 r.rows.length =
      Mesh.parcels meshes (Mesh.afterX meshes (stagedAs state (t.names, t.before))) (meshes i).shape.ySides i) :
    ∃ part, (r.finish t xOnly).plan = r.plan ++ part ∧
      Path ((meshes i).finishExchange (Mesh.underway meshes (stagedAs state (t.names, t.before)) xOnly t.number i))
        (Step.script i parcelsOf part)
        (.finished (.ok (t.names.map fun n => state n (fillAfter (r.done ++ [(t.names, xOnly)]) n) i))) := by
  have ready := crew.staged (t.names, t.before) known
  have fillings (n : Nat) (member : n ∈ t.names) := crew.fillings n (known n member)
  have shaped (n : Nat) (member : n ∈ t.names) := crew.shaped n (known n member)
  by_cases last : xOnly = true ∨ t.names = []
  · refine ⟨[.get 0 t.number], by rw [Record.finish, if_pos last], ?_⟩
    have path := ready.finishes_columns inside (last.imp_right fun none_ => by simp [none_]) columns
    rw [stagedAs, afterX_groupOf crew.given crew.room fillings shaped inside] at path
    rw [Step.script, List.flatMap_singleton]
    refine (congrArg (fun fields => Path _ _ (Program.finished (Except.ok fields))) ?_).mp path
    refine List.map_congr_left fun n member => ?_
    obtain rfl : xOnly = true := last.resolve_right (List.ne_nil_of_mem member)
    rw [fillAfter_columns, if_pos member, ← current rfl]
  · obtain ⟨full, some_⟩ := not_or.mp last
    obtain rfl := eq_false_of_ne_true full
    refine ⟨[.get 0 t.number, .ask 1 r.rows.length, .get 1 r.rows.length], by rw [Record.finish, if_neg last], ?_⟩
    have path := ready.finishes_rows inside (mt List.length_eq_zero_iff.mp some_) columns (rows last)
    rw [stagedAs, afterY_groupOf crew.given crew.room fillings shaped inside] at path
    refine (congrArg (fun fields => Path _ _ (Program.finished (Except.ok fields))) ?_).mp path
    refine List.map_congr_left fun n member => ?_
    rw [fillAfter_all, if_pos member]

/-- What a rank stores when an exchange has ended. -/
theorem stores (crew : Crew l meshes refs size state) (inside : i < l.count) {done : List (List Nat × Bool)}
    {base store : Store α} (stored : Stored (refs i) size (fun n => state n (fillAfter done n) i) base store)
    {names : List Nat} (known : ∀ n ∈ names, n < size) (xOnly : Bool) :
    Stored (refs i) size (fun n => state n (fillAfter (done ++ [(names, xOnly)]) n) i) base
      (store.putAllValues (names.map (refs i))
        (names.map fun n => state n (fillAfter (done ++ [(names, xOnly)]) n) i)) := by
  have put := stored.putAll known (crew.distinct i inside)
    (fun n => state n (fillAfter (done ++ [(names, xOnly)]) n) i) fun n within => crew.alike inside within _ _
  refine ⟨fun n within => (put.named n within).trans (congrArg some ?_), put.others⟩
  by_cases named : n ∈ names
  · rw [if_pos named]
  · rw [if_neg named]
    cases xOnly with
    | false => rw [fillAfter_all, if_neg named]
    | true => rw [fillAfter_columns, if_neg named]

/-- A rank goes through the plan of its program. -/
theorem performs (crew : Crew l meshes refs size state) (inside : i < l.count) {base : Store α}
    (parcelsOf : Nat → Nat → List (Parcel (Array α))) {r final : Record} {actions : List Action}
    (runs : Runs size r actions final) (sound : r.Sound size)
    (columns : ∀ n b, final.columns[n]? = some b →
      parcelsOf 0 n = Mesh.parcels meshes (stagedAs state b) (meshes i).shape.xSides i)
    (rows : ∀ n b, final.rows[n]? = some b →
      parcelsOf 1 n = Mesh.parcels meshes (Mesh.afterX meshes (stagedAs state b)) (meshes i).shape.ySides i)
    {rank : Rank α} (own : rank.mesh = meshes i) {store : Store α}
    (stored : Stored (refs i) size (fun n => state n (fillAfter r.done n) i) base store) :
    ∃ later store', final.plan = r.plan ++ later ∧
      Stored (refs i) size (fun n => state n (fillAfter final.done n) i) base store' ∧
      Path ((RankM.perform (refs i) actions (r.tickets.map (Ticket.handle meshes state (refs i) i))).run.run
        { rank with store := store }) (Step.script i parcelsOf later) (.finished (.ok (), { rank with store := store' })) := by
  induction runs generalizing store with
  | done r => exact ⟨[], store, by simp, stored, .here _⟩
  | @send r final rest names known runs ih =>
    obtain ⟨later, store', plan, kept, path⟩ := ih (sound.send known) columns rows stored
    have phase := runs.column_kept (n := r.columns.length) (b := (names, r.done)) List.getElem?_concat_length
    refine ⟨.ask 0 r.columns.length :: later, store', ?_, kept, ?_⟩
    · simp [plan, Record.send, Record.ask]
    · have started := (crew.staged (names, r.done) known).starts inside false (columns _ _ phase)
      rw [← own] at started
      have sent := (RankM.send_path (r := { rank with store := store })).mpr
        ⟨_, _, stored.fetch known, rfl, rfl, started⟩
      rw [RankM.perform, RankM.run_bind]
      refine sent.bind_finished ?_
      rw [Record.send, List.map_append] at path
      exact path
  | @wait r final rest handle t found waiting runs ih =>
    have phase := sound.phases t (List.mem_of_getElem? found)
    have known := sound.known _ (List.mem_append_left _ (List.mem_of_getElem? phase))
    have same : (r.wait handle t).columns = r.columns := r.columns_finish t false
    obtain ⟨part, ended, path⟩ := crew.finishes inside r t false known (fun whole => by cases whole)
      (columns _ _ (runs.column_kept (same ▸ phase))) fun full => rows _ _ (runs.row_kept (r.row_finish full))
    rw [← own] at path
    have waited := (RankM.wait_path (h := t.handle meshes state (refs i) i) (r := { rank with store := store })).mpr
      ⟨waiting, _, rfl, rfl, path⟩
    have done : (r.wait handle t).done = r.done ++ [(t.names, false)] := r.done_finish t false
    have stored' := crew.stores inside stored known false
    rw [← done] at stored'
    obtain ⟨later, store', plan, kept, path'⟩ := ih (sound.wait found waiting) columns rows stored'
    refine ⟨part ++ later, store', ?_, kept, ?_⟩
    · rw [plan, ← List.append_assoc, ← ended]
      rfl
    · rw [RankM.perform, List.getElem?_map, found, Step.script, List.flatMap_append]
      change Path ((RankM.wait _ >>= _).run.run { rank with store := store }) _ _
      rw [RankM.run_bind]
      refine waited.bind_finished ?_
      have marked : (r.wait handle t).tickets = r.tickets.set handle { t with used := true } := rfl
      rw [done, marked, List.map_set] at path'
      exact path'
  | @communicate r final rest names xOnly known runs ih =>
    have asked : final.columns[r.columns.length]? = some (names, r.done) := by
      apply runs.column_kept
      rw [Record.columns_communicate]
      exact List.getElem?_concat_length
    obtain ⟨part, ended, path⟩ := crew.finishes inside (r.ask names) (r.ticket names) xOnly known (fun _ => rfl)
      (columns _ _ asked) fun full => rows _ _ (runs.row_kept ((r.ask names).row_finish full))
    have started := (crew.staged (names, r.done) known).starts inside xOnly (columns _ _ asked)
    rw [← own] at path started
    have stored' := crew.stores inside stored known xOnly
    rw [← Record.done_communicate] at stored'
    obtain ⟨later, store', plan, kept, path'⟩ := ih (sound.communicate known xOnly) columns rows stored'
    refine ⟨.ask 0 r.columns.length :: (part ++ later), store', ?_, kept, ?_⟩
    · rw [plan, Record.communicate, ended, Record.ask]
      simp
    · have events : Step.script i parcelsOf (.ask 0 r.columns.length :: (part ++ later)) =
          Step.events i parcelsOf (.ask 0 r.columns.length) ++ Step.script i parcelsOf part ++ [] ++
            Step.script i parcelsOf later := by simp [Step.script]
      have exchanged : Path (rank.mesh.exchange (names.map fun n => state n (fillAfter r.done n) i) xOnly)
          (Step.events i parcelsOf (.ask 0 r.columns.length) ++ Step.script i parcelsOf part)
          (.finished (.ok (names.map fun n => state n (fillAfter (r.done ++ [(names, xOnly)]) n) i))) :=
        started.bind_finished path
      rw [RankM.perform, RankM.run_bind, RankM.communicate_run (stored.fetch known), events]
      rw [Record.tickets_communicate, Record.done_communicate] at path'
      exact Path.bind_finished (exchanged.bind_finished (.here _)) path'

/-- In every interleaving a settled program ends on all ranks, with every field filled as far as its exchanges go. -/
theorem ends (crew : Crew l meshes refs size state) {ranks : Nat → Rank α} (own : ∀ i < l.count, (ranks i).mesh = meshes i)
    (held : ∀ i < l.count, Stored (refs i) size (fun n => state n .raw i) (ranks i).store (ranks i).store)
    {actions : List Action} (settled : Action.Settled actions)
    (known : ∀ e ∈ Action.exchanges actions, ∀ n ∈ e.1, n < size) : ∃ stores : Nat → Store α,
      EndsIn (launch l.count ranks refs actions) (fun i => (.ok (), { ranks i with store := stores i })) ∧
      ∀ i < l.count, Stored (refs i) size (fun n => state n (fillAfter (Action.exchanges actions) n) i)
        (ranks i).store (stores i) := by
  obtain ⟨final, runs, used⟩ := settled.runs known
  have sound := runs.sound Record.sound_start
  have done (n : Nat) : fillAfter final.done n = fillAfter (Action.exchanges actions) n :=
    fillAfter_congr (fun e => by simpa [Record.start] using runs.mem_done used e) n
  have goes (i : Nat) : ∃ store, i < l.count →
      Stored (refs i) size (fun n => state n (fillAfter (Action.exchanges actions) n) i) (ranks i).store store ∧
      Path ((RankM.perform (refs i) actions []).run.run (ranks i))
        (Step.script i (final.parcels meshes state i) final.plan) (.finished (.ok (), { ranks i with store := store })) := by
    by_cases inside : i < l.count
    · have started : Stored (refs i) size (fun n => state n (fillAfter Record.start.done n) i) (ranks i).store
          (ranks i).store := held i inside
      obtain ⟨later, store, plan, stored, path⟩ := crew.performs inside (final.parcels meshes state i) runs Record.sound_start
        (fun n b found => by rw [Record.parcels, Record.staged, List.getD_eq_getElem?_getD, found]; rfl)
        (fun n b found => by rw [Record.parcels, Record.staged, List.getD_eq_getElem?_getD, found]; rfl)
        (own i inside) started
      obtain rfl : final.plan = later := plan
      simp only [done] at stored
      exact ⟨store, fun _ => ⟨stored, path⟩⟩
    · exact ⟨(ranks i).store, fun within => absurd within inside⟩
  choose stores stored using goes
  refine ⟨stores, fun situation reached => ?_, fun i inside => (stored i inside).1⟩
  have count : (launch l.count ranks refs actions).ranks.length = l.count := by simp [launch]
  rw [count]
  refine (crew.planned sound used).agreement.runs count rfl (fun i p found => ?_) reached
  have inside : i < l.count := count ▸ (List.getElem?_eq_some_iff.mp found).1
  obtain rfl : (RankM.perform (refs i) actions []).run.run (ranks i) = p := by simpa [launch, inside] using found
  exact (stored i inside).2

end Crew

theorem Fillings.interior {l : Layout α} {meshes : Nat → Mesh α} {state : Fill → Nat → Field α}
    (fillings : Fillings l meshes state) {i : Nat} (inside : i < l.count) {first second : Fill} (some_ : first ≠ .raw)
    (other : second ≠ .raw) {x y : Int} (present : (state .raw i).HasColumn x y) (low : l.shape.myg ≤ y)
    (high : y < l.shape.myg + l.height i) : (state first i).line x y = (state second i).line x y := by
  have kept (fill : Fill) (filled : fill ≠ .raw) : (state fill i).line x y = (state .columns i).line x y := by
    cases fill with
    | raw => exact absurd rfl filled
    | columns => rfl
    | all =>
      exact (fillings.rows .raw).keeps_rows inside ((fillings.alike .columns inside).hasColumn.mpr present) low high
  rw [kept first some_, kept second other]

/-- The ranks of a collective call with the states of their fields. -/
theorem Collective.crew {l : Layout α} {size : Nat} {meshes : Nat → Mesh α} {ranks : Nat → Rank α}
    {refs : Nat → Nat → FieldRef} {before : Nat → Nat → Field α}
    (calls : Collective l.count meshes ranks (fun i => (List.range size).map (refs i)) size before)
    (given : ∀ i < l.count, l.Assigns i (meshes i)) (room : ∀ i < l.count, (meshes i).HasRoom)
    (distinct : ∀ i < l.count, ((List.range size).map (refs i)).Nodup) :
    ∃ state, Crew l meshes refs size state ∧ (∀ n < size, ∀ i, state n .raw i = before i n) ∧
      ∀ i < l.count, Stored (refs i) size (fun n => state n .raw i) (ranks i).store (ranks i).store := by
  have filled (n : Nat) : ∃ state, n < size → Fillings l meshes state ∧ state .raw = fun i => before i n := by
    by_cases within : n < size
    · obtain ⟨state, fillings, raw⟩ := exists_fillings given room fun i inside => calls.shaped i inside n within
      exact ⟨state, fun _ => ⟨fillings, raw⟩⟩
    · exact ⟨fun _ i => before i n, fun inside => absurd inside within⟩
  choose state fillings using filled
  have raw (n : Nat) (within : n < size) (i : Nat) : state n .raw i = before i n := congrFun (fillings n within).2 i
  refine ⟨state, ⟨given, room, fun i inside n within n' within' => ?_, fun n within => (fillings n within).1,
    fun n within i inside => raw n within i ▸ calls.shaped i inside n within⟩, raw, fun i inside => ⟨?_, fun _ _ => rfl⟩⟩
  · exact List.inj_on_of_nodup_map (distinct i inside) (List.mem_range.mpr within) (List.mem_range.mpr within')
  · intro n within
    rw [raw n within]
    exact calls.held i inside n (refs i n) (by simp [within])

def singleNullPair (m : Mesh Whole) (i : Nat) : Rank Whole :=
  { Rank.ofMesh m [] with store := ⟨#[singleNullField i, singleNullField (i + 8)]⟩ }

def crossedWaits : List Action := [.send [0], .send [1], .communicate [0] true, .wait 1, .wait 0]

theorem singleNull_pairs : ∃ meshes : Nat → Mesh Whole,
    (∀ i : Nat, i < 8 → Mesh.load singleNullSource Options.empty ⟨i, 8⟩ = .ok (meshes i, []) ∧ (meshes i).HasRoom) ∧
      Collective 8 meshes (fun i => singleNullPair (meshes i) i) (fun _ => (List.range 2).map FieldRef.mk) 2
        fun i k => singleNullField (i + 8 * k) := by
  obtain ⟨meshes, loaded, calls⟩ := singleNull_calls
  refine ⟨meshes, loaded, fun _ _ => rfl, fun _ _ => rfl, fun i _ k ref named => ?_,
    fun i inside _ _ => calls.shaped i inside 0 Nat.one_pos⟩
  match k, named with
  | 0, named =>
    obtain rfl : FieldRef.mk 0 = ref := Option.some.inj named
    rfl
  | 1, named =>
    obtain rfl : FieldRef.mk 1 = ref := Option.some.inj named
    rfl

end HaloMesh
