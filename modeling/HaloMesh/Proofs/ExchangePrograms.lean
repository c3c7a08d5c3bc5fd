import HaloMesh.Proofs.RepeatedExchange

/-! Programs of exchanges that all ranks make alike. After each call the ranks agree on a record of what was done:
which exchanges have ended, which groups went through the x and the y phases, in what order these were asked for
and got, and which handles there are. -/

namespace HaloMesh
open Transport

/-- A call that all ranks make. A name stands for one field on every rank, and a handle is known by its place
among the sends. -/
inductive Action where
  | send (names : List Nat)
  | wait (handle : Nat)
  | communicate (names : List Nat) (xOnly : Bool)
deriving DecidableEq

namespace Action

def sent? : Action → Option (List Nat)
  | send names => some names
  | _ => none

def waited? : Action → Option Nat
  | wait handle => some handle
  | _ => none

/-- The group that a call exchanges, or starts to exchange. -/
def exchange? : Action → Option (List Nat × Bool)
  | send names => some (names, false)
  | wait _ => none
  | communicate names xOnly => some (names, xOnly)

def sends (actions : List Action) : List (List Nat) := actions.filterMap sent?

def waits (actions : List Action) : List Nat := actions.filterMap waited?

def exchanges (actions : List Action) : List (List Nat × Bool) := actions.filterMap exchange?

section Parts

variable (names : List Nat) (handle : Nat) (xOnly : Bool) (rest : List Action)

theorem sends_send : sends (send names :: rest) = names :: sends rest := rfl

theorem exchanges_send : exchanges (send names :: rest) = (names, false) :: exchanges rest := rfl

theorem exchanges_wait : exchanges (wait handle :: rest) = exchanges rest := rfl

theorem exchanges_communicate : exchanges (communicate names xOnly :: rest) = (names, xOnly) :: exchanges rest := rfl

end Parts

/-- Every handle is waited for once, after it was made. -/
structure Settled (actions : List Action) : Prop where
  later : ∀ first handle rest, actions = first ++ wait handle :: rest → handle < (sends first).length
  permuted : (waits actions).Perm (List.range (sends actions).length)

/-- Whether every wait is for one of the handles made so far. -/
def inTime : Nat → List Action → Bool
  | _, [] => true
  | made, send _ :: rest => inTime (made + 1) rest
  | made, wait handle :: rest => decide (handle < made) && inTime made rest
  | made, communicate _ _ :: rest => inTime made rest

theorem inTime_iff {made : Nat} {actions : List Action} : inTime made actions = true ↔
    ∀ first handle rest, actions = first ++ wait handle :: rest → handle < made + (sends first).length := by
  induction actions generalizing made with
  | nil => simp [inTime]
  | cons action others ih =>
    have split (first rest : List Action) (handle : Nat) : action :: others = first ++ wait handle :: rest ↔
        (first = [] ∧ action = wait handle ∧ others = rest) ∨
          ∃ first', first = action :: first' ∧ others = first' ++ wait handle :: rest := by
      rw [List.cons_eq_append_iff]
      simp [eq_comm]
    cases action with
    | send names =>
      rw [inTime, ih]
      constructor
      · intro inside first handle rest same
        obtain ⟨-, impossible, -⟩ | ⟨first', rfl, later⟩ := (split ..).mp same
        · cases impossible
        · have less := inside first' handle rest later
          rw [sends_send, List.length_cons]
          omega
      · intro inside first handle rest same
        have less := inside (send names :: first) handle rest (congrArg _ same)
        rw [sends_send, List.length_cons] at less
        omega
    | wait k =>
      rw [inTime, Bool.and_eq_true, decide_eq_true_eq, ih]
      constructor
      · intro inside first handle rest same
        obtain ⟨rfl, here, -⟩ | ⟨first', rfl, later⟩ := (split ..).mp same
        · cases here
          exact inside.1
        · exact inside.2 first' handle rest later
      · intro inside
        exact ⟨inside [] k others rfl, fun first handle rest same =>
          inside (wait k :: first) handle rest (congrArg _ same)⟩
    | communicate names xOnly =>
      rw [inTime, ih]
      constructor
      · intro inside first handle rest same
        obtain ⟨-, impossible, -⟩ | ⟨first', rfl, later⟩ := (split ..).mp same
        · cases impossible
        · exact inside first' handle rest later
      · intro inside first handle rest same
        exact inside (communicate names xOnly :: first) handle rest (congrArg _ same)

theorem settled_iff {actions : List Action} :
    Settled actions ↔ inTime 0 actions = true ∧ (waits actions).Perm (List.range (sends actions).length) := by
  rw [inTime_iff]
  simp only [Nat.zero_add]
  exact ⟨fun settled => ⟨settled.later, settled.permuted⟩, fun holds => ⟨holds.1, holds.2⟩⟩

instance (actions : List Action) : Decidable (Settled actions) := decidable_of_iff' _ settled_iff

theorem settled_communicate (names : List Nat) (xOnly : Bool) : Settled [communicate names xOnly] :=
  settled_iff.mpr ⟨rfl, .refl _⟩

end Action

/-! What has happened after some of the calls, which is the same on all ranks. -/

/-- How far a field is filled once exchanges are done. -/
def fillAfter (exchanges : List (List Nat × Bool)) (n : Nat) : Fill :=
  if exchanges.any fun e => e.1.contains n && !e.2 then .all
  else if exchanges.any fun e => e.1.contains n then .columns
  else .raw

theorem fillAfter_columns (exchanges : List (List Nat × Bool)) (names : List Nat) (n : Nat) :
    fillAfter (exchanges ++ [(names, true)]) n =
      if n ∈ names then (fillAfter exchanges n).beside else fillAfter exchanges n := by
  simp only [fillAfter, List.any_append, List.any_cons, List.any_nil, Bool.not_true, Bool.and_false, Bool.or_false]
  by_cases named : n ∈ names
  · rw [if_pos named, List.contains_iff_mem.mpr named, Bool.or_true, if_pos rfl]
    split
    · rfl
    · split <;> rfl
  · rw [if_neg named, Bool.eq_false_iff.mpr (mt List.contains_iff_mem.mp named), Bool.or_false]

theorem fillAfter_all (exchanges : List (List Nat × Bool)) (names : List Nat) (n : Nat) :
    fillAfter (exchanges ++ [(names, false)]) n = if n ∈ names then .all else fillAfter exchanges n := by
  simp only [fillAfter, List.any_append, List.any_cons, List.any_nil, Bool.not_false, Bool.and_true, Bool.or_false]
  by_cases named : n ∈ names
  · rw [if_pos named, List.contains_iff_mem.mpr named, Bool.or_true, if_pos rfl]
  · rw [if_neg named, Bool.eq_false_iff.mpr (mt List.contains_iff_mem.mp named), Bool.or_false, Bool.or_false]

theorem fillAfter_eq_all {exchanges : List (List Nat × Bool)} {n : Nat} :
    fillAfter exchanges n = .all ↔ ∃ e ∈ exchanges, n ∈ e.1 ∧ e.2 = false := by
  have any : (exchanges.any fun e => e.1.contains n && !e.2) = true ↔ ∃ e ∈ exchanges, n ∈ e.1 ∧ e.2 = false := by
    simp
  rw [← any, fillAfter]
  cases exchanges.any fun e => e.1.contains n && !e.2 with
  | true => exact iff_of_true rfl rfl
  | false => cases exchanges.any fun e => e.1.contains n <;> exact iff_of_false nofun nofun

theorem fillAfter_eq_raw {exchanges : List (List Nat × Bool)} {n : Nat} :
    fillAfter exchanges n = .raw ↔ ∀ e ∈ exchanges, n ∉ e.1 := by
  constructor
  · intro same e member named
    rw [fillAfter] at same
    have any : (exchanges.any fun e => e.1.contains n) = true := List.any_eq_true.mpr ⟨e, member, by simpa using named⟩
    rw [any] at same
    split at same <;> simp at same
  · intro unnamed
    have none_ (chosen : List Nat × Bool → Bool) : (exchanges.any fun e => e.1.contains n && chosen e) = false := by
      simp only [List.any_eq_false, Bool.and_eq_true, List.contains_iff_mem, not_and]
      exact fun e member named => absurd named (unnamed e member)
    have all := none_ fun _ => true
    simp only [Bool.and_true] at all
    rw [fillAfter, none_, all]
    rfl

theorem fillAfter_congr {first second : List (List Nat × Bool)} (same : ∀ e, e ∈ first ↔ e ∈ second) (n : Nat) :
    fillAfter first n = fillAfter second n := by
  have any (chosen : List Nat × Bool → Bool) : first.any chosen = second.any chosen := by
    rw [Bool.eq_iff_iff, List.any_eq_true, List.any_eq_true]
    exact exists_congr fun e => and_congr_left fun _ => same e
  rw [fillAfter, fillAfter, any, any]

/-- One exchange alone fills a field as far as many do, unless others fill more. -/
theorem fillAfter_alone {exchanges : List (List Nat × Bool)} {e : List Nat × Bool} (member : e ∈ exchanges) {n : Nat}
    (named : n ∈ e.1) (most : e.2 = false ∨ ∀ e' ∈ exchanges, n ∈ e'.1 → e'.2 = true) :
    fillAfter exchanges n = fillAfter [e] n := by
  by_cases whole : e.2 = false
  · rw [fillAfter_eq_all.mpr ⟨e, member, named, whole⟩, fillAfter_eq_all.mpr ⟨e, List.mem_cons_self, named, whole⟩]
  · have partly := most.resolve_left whole
    have columns (others : List (List Nat × Bool)) (among : e ∈ others) (inside : others ⊆ exchanges) :
        fillAfter others n = .columns := by
      cases filled : fillAfter others n with
      | raw => exact absurd named (fillAfter_eq_raw.mp filled e among)
      | columns => rfl
      | all =>
        obtain ⟨e', member', named', whole'⟩ := fillAfter_eq_all.mp filled
        rw [partly e' (inside member') named'] at whole'
        cases whole'
    rw [columns exchanges member (List.Subset.refl _), columns [e] List.mem_cons_self (by simpa using member)]

/-- An exchange that was started: its group, what was done before, the number of its x phase, and whether it
was waited for. -/
structure Ticket where
  names : List Nat
  before : List (List Nat × Bool)
  number : Nat
  used : Bool

/-- The exchanges that are done, the groups in the x and the y phases so far, and the handles. -/
structure Record where
  done : List (List Nat × Bool)
  columns : List (List Nat × List (List Nat × Bool))
  rows : List (List Nat × List (List Nat × Bool))
  plan : List Step
  tickets : List Ticket

namespace Record

def start : Record := ⟨[], [], [], [], []⟩

def ask (r : Record) (names : List Nat) : Record :=
  { r with columns := r.columns ++ [(names, r.done)], plan := r.plan ++ [.ask 0 r.columns.length] }

/-- The rest of an exchange. Without fields there is no y phase. -/
def finish (r : Record) (t : Ticket) (xOnly : Bool) : Record :=
  if xOnly = true ∨ t.names = [] then
    { r with done := r.done ++ [(t.names, xOnly)], plan := r.plan ++ [.get 0 t.number] }
  else
    { r with
      done := r.done ++ [(t.names, xOnly)]
      rows := r.rows ++ [(t.names, t.before)]
      plan := r.plan ++ [.get 0 t.number, .ask 1 r.rows.length, .get 1 r.rows.length] }

def ticket (r : Record) (names : List Nat) : Ticket := ⟨names, r.done, r.columns.length, false⟩

def send (r : Record) (names : List Nat) : Record := { r.ask names with tickets := r.tickets ++ [r.ticket names] }

def wait (r : Record) (handle : Nat) (t : Ticket) : Record :=
  { r.finish t false with tickets := r.tickets.set handle { t with used := true } }

def communicate (r : Record) (names : List Nat) (xOnly : Bool) : Record := (r.ask names).finish (r.ticket names) xOnly

section Fields

variable (r : Record) (names : List Nat) (t : Ticket) (xOnly : Bool)

@[simp] theorem done_finish : (r.finish t xOnly).done = r.done ++ [(t.names, xOnly)] := by
  unfold finish
  split <;> rfl

@[simp] theorem columns_finish : (r.finish t xOnly).columns = r.columns := by
  unfold finish
  split <;> rfl

@[simp] theorem tickets_finish : (r.finish t xOnly).tickets = r.tickets := by
  unfold finish
  split <;> rfl

theorem rows_finish : r.rows <+: (r.finish t xOnly).rows := by
  unfold finish
  split
  · exact List.prefix_rfl
  · exact List.prefix_append _ _

variable {t xOnly} in
theorem row_finish (full : ¬ (xOnly = true ∨ t.names = [])) :
    (r.finish t xOnly).rows[r.rows.length]? = some (t.names, t.before) := by
  rw [finish, if_neg full]
  exact List.getElem?_concat_length

theorem mem_rows_finish {b : List Nat × List (List Nat × Bool)} (member : b ∈ (r.finish t xOnly).rows) :
    b ∈ r.rows ∨ b = (t.names, t.before) := by
  unfold finish at member
  split at member
  · exact .inl member
  · simpa using member

theorem length_send : (r.send names).tickets.length = r.tickets.length + 1 := List.length_append

@[simp] theorem done_communicate : (r.communicate names xOnly).done = r.done ++ [(names, xOnly)] := done_finish ..

@[simp] theorem columns_communicate : (r.communicate names xOnly).columns = r.columns ++ [(names, r.done)] :=
  columns_finish ..

@[simp] theorem tickets_communicate : (r.communicate names xOnly).tickets = r.tickets := tickets_finish ..

end Fields

end Record

/-- A program goes from one record to another. -/
inductive Runs (size : Nat) : Record → List Action → Record → Prop where
  | done (r : Record) : Runs size r [] r
  | send {r final : Record} {rest : List Action} (names : List Nat) (known : ∀ n ∈ names, n < size)
      (later : Runs size (r.send names) rest final) : Runs size r (.send names :: rest) final
  | wait {r final : Record} {rest : List Action} {handle : Nat} {t : Ticket} (found : r.tickets[handle]? = some t)
      (waiting : t.used = false) (later : Runs size (r.wait handle t) rest final) :
      Runs size r (.wait handle :: rest) final
  | communicate {r final : Record} {rest : List Action} (names : List Nat) (xOnly : Bool) (known : ∀ n ∈ names, n < size)
      (later : Runs size (r.communicate names xOnly) rest final) : Runs size r (.communicate names xOnly :: rest) final

namespace Record

/-- The plan of a record fits its phases. Of the phases under way all are x phases. -/
structure Numbered (r : Record) : Prop where
  orderly : Step.Orderly r.plan
  columns : (Step.asks 0 r.plan).length = r.columns.length
  rows : (Step.asks 1 r.plan).length = r.rows.length
  underway : ∀ kind n, Step.Underway r.plan kind n → kind = 0

variable {r : Record}

theorem numbered_start : start.Numbered := ⟨Step.orderly_nil, rfl, rfl, fun _ _ asked => by cases asked.1⟩

theorem Numbered.tickets (numbered : r.Numbered) (tickets : List Ticket) : { r with tickets := tickets }.Numbered :=
  ⟨numbered.orderly, numbered.columns, numbered.rows, numbered.underway⟩

theorem Numbered.ask (numbered : r.Numbered) (names : List Nat) : (r.ask names).Numbered ∧
    ∀ n, Step.Underway (r.ask names).plan 0 n ↔ Step.Underway r.plan 0 n ∨ n = r.columns.length := by
  obtain ⟨orderly, columns, rows, underway⟩ := numbered
  have waiting (other n : Nat) := orderly.underway_ask 0 other n
  have next := orderly.ask 0
  rw [columns] at next waiting
  refine ⟨⟨next, ?_, ?_, fun kind n asked => ?_⟩, fun n => ?_⟩
  · simp [Record.ask, Step.asks_append, columns]
  · simp [Record.ask, Step.asks_append, rows]
  · rcases (waiting kind n).mp asked with earlier | ⟨rfl, -⟩
    · exact underway kind n earlier
    · rfl
  · rw [Record.ask, waiting, eq_self, true_and]

theorem Numbered.finish (numbered : r.Numbered) {t : Ticket} (waiting : Step.Underway r.plan 0 t.number) (xOnly : Bool) :
    (r.finish t xOnly).Numbered ∧
      ∀ n, Step.Underway (r.finish t xOnly).plan 0 n ↔ Step.Underway r.plan 0 n ∧ n ≠ t.number := by
  obtain ⟨orderly, columns, rows, underway⟩ := numbered
  have got := orderly.get waiting.1 waiting.2
  unfold Record.finish
  split
  · refine ⟨⟨got, ?_, ?_, fun kind n asked => ?_⟩, fun n => ?_⟩
    · simp [Step.asks_append, columns]
    · simp [Step.asks_append, rows]
    · exact underway kind n ((Step.underway_get ..).mp asked).1
    · simp [Step.underway_get]
  · -- the y phase is asked for and got at once
    have count : (Step.asks 1 (r.plan ++ [.get 0 t.number])).length = r.rows.length := by simp [Step.asks_append, rows]
    have asked := got.ask 1
    have inside (other n : Nat) := got.underway_ask 1 other n
    rw [count] at asked inside
    have whole : r.plan ++ [.get 0 t.number, .ask 1 r.rows.length, .get 1 r.rows.length] =
        r.plan ++ [.get 0 t.number] ++ [.ask 1 r.rows.length] ++ [.get 1 r.rows.length] := by simp
    have row : Step.Underway (r.plan ++ [.get 0 t.number] ++ [.ask 1 r.rows.length]) 1 r.rows.length :=
      (inside 1 _).mpr (.inr ⟨rfl, rfl⟩)
    dsimp only
    rw [whole]
    refine ⟨⟨asked.get row.1 row.2, ?_, ?_, fun kind n left => ?_⟩, fun n => ?_⟩
    · simp only [Step.asks_append, Step.asks_get, Step.asks_ask, one_ne_zero, ↓reduceIte, List.append_nil, columns]
    · simp only [Step.asks_append, Step.asks_get, Step.asks_ask, ↓reduceIte, List.append_nil, List.length_append,
        List.length_singleton, rows]
    · obtain ⟨earlier, other⟩ := (Step.underway_get ..).mp left
      rcases (inside kind n).mp earlier with before | same
      · exact underway kind n ((Step.underway_get ..).mp before).1
      · exact absurd same other
    · rw [Step.underway_get, inside, Step.underway_get]
      simp

/-- The handles of a record that were not waited for are those of the x phases under way. -/
structure Sound (size : Nat) (r : Record) : Prop where
  numbered : r.Numbered
  known : ∀ b ∈ r.columns ++ r.rows, ∀ n ∈ b.1, n < size
  numbers : (r.tickets.map Ticket.number).Nodup
  phases : ∀ t ∈ r.tickets, r.columns[t.number]? = some (t.names, t.before)
  waiting : ∀ n, Step.Underway r.plan 0 n ↔ ∃ t ∈ r.tickets, t.used = false ∧ t.number = n

variable {size : Nat}

theorem sound_start : start.Sound size where
  numbered := numbered_start
  known b member := by cases member
  numbers := List.nodup_nil
  phases t member := by cases member
  waiting n := by
    constructor
    · intro asked
      cases asked.1
    · intro holds
      obtain ⟨t, member, -⟩ := holds
      cases member

theorem Sound.send (sound : r.Sound size) {names : List Nat} (known : ∀ n ∈ names, n < size) :
    (r.send names).Sound size := by
  obtain ⟨numbered, waiting⟩ := sound.numbered.ask names
  have before (t : Ticket) (member : t ∈ r.tickets) : t.number < r.columns.length :=
    (List.getElem?_eq_some_iff.mp (sound.phases t member)).1
  refine ⟨numbered.tickets _, fun b member => ?_, ?_, fun t member => ?_, fun n => ?_⟩
  · simp only [Record.send, Record.ask, List.append_assoc, List.mem_append, List.mem_singleton] at member
    rcases member with earlier | rfl | earlier
    · exact sound.known b (List.mem_append_left _ earlier)
    · exact known
    · exact sound.known b (List.mem_append_right _ earlier)
  · simp only [Record.send, List.map_append, List.map_singleton]
    refine List.nodup_append.mpr ⟨sound.numbers, List.nodup_singleton _, ?_⟩
    intro n earlier n' new same
    obtain ⟨t, member, rfl⟩ := List.mem_map.mp earlier
    obtain rfl := List.mem_singleton.mp new
    have less := before t member
    rw [same] at less
    exact Nat.lt_irrefl _ less
  · rcases List.mem_append.mp member with earlier | new
    · exact (List.getElem?_append_left (before t earlier)).trans (sound.phases t earlier)
    · obtain rfl := List.mem_singleton.mp new
      simp [Record.send, Record.ask, Record.ticket]
  · refine (waiting n).trans ?_
    rw [sound.waiting]
    simp only [Record.send, List.mem_append, List.mem_singleton, or_and_right, exists_or, exists_eq_left, Record.ticket,
      true_and, eq_comm (a := n)]

/-- The handles that are left when one was waited for. -/
theorem unused_set {tickets : List Ticket} {handle : Nat} {t t' : Ticket} :
    (t' ∈ tickets.set handle { t with used := true } ∧ t'.used = false) ↔
      (∃ k, k ≠ handle ∧ tickets[k]? = some t') ∧ t'.used = false := by
  refine and_congr_left fun unused => ?_
  rw [List.mem_iff_getElem?]
  refine exists_congr fun k => ?_
  rw [List.getElem?_set]
  by_cases here : handle = k
  · subst here
    simp only [↓reduceIte, ne_eq, not_true_eq_false, false_and, iff_false]
    split
    · intro same
      rw [← Option.some.inj same] at unused
      cases unused
    · intro same
      cases same
  · simp [here, Ne.symm here]

theorem Sound.wait (sound : r.Sound size) {handle : Nat} {t : Ticket} (found : r.tickets[handle]? = some t)
    (unused : t.used = false) : (r.wait handle t).Sound size := by
  have member := List.mem_of_getElem? found
  have inside := (List.getElem?_eq_some_iff.mp found).1
  obtain ⟨numbered, waiting⟩ := sound.numbered.finish ((sound.waiting _).mpr ⟨t, member, unused, rfl⟩) false
  have among (t' : Ticket) (member' : t' ∈ r.tickets.set handle { t with used := true }) :
      t' ∈ r.tickets ∨ t' = { t with used := true } := List.mem_or_eq_of_mem_set member'
  refine ⟨numbered.tickets _, fun b group => ?_, ?_, fun t' member' => ?_, fun n => ?_⟩
  · rcases List.mem_append.mp group with column | row
    · exact sound.known b (List.mem_append_left _ ((r.columns_finish t false) ▸ column))
    · rcases r.mem_rows_finish t false row with earlier | rfl
      · exact sound.known b (List.mem_append_right _ earlier)
      · exact sound.known _ (List.mem_append_left _ (List.mem_of_getElem? (sound.phases t member)))
  · have same : (r.tickets.set handle { t with used := true }).map Ticket.number = r.tickets.map Ticket.number := by
      rw [List.map_set]
      apply List.ext_getElem?
      intro k
      rw [List.getElem?_set]
      split
      next here =>
        subst here
        rw [List.getElem?_map, found]
        simp [inside]
      next => rfl
    exact same ▸ sound.numbers
  · refine (congrArg (·[t'.number]?) (r.columns_finish t false)).trans ?_
    rcases among t' member' with other | rfl
    · exact sound.phases t' other
    · exact sound.phases t member
  · refine (waiting n).trans ?_
    rw [sound.waiting]
    constructor
    · intro holds
      obtain ⟨⟨t', member', unused', rfl⟩, other⟩ := holds
      obtain ⟨k, found'⟩ := List.getElem?_of_mem member'
      refine ⟨t', (unused_set.mpr ⟨⟨k, fun same => other ?_, found'⟩, unused'⟩).1, unused', rfl⟩
      rw [same, found] at found'
      rw [Option.some.inj found']
    · intro holds
      obtain ⟨t', member', unused', rfl⟩ := holds
      obtain ⟨⟨k, other, found'⟩, -⟩ := unused_set.mp ⟨member', unused'⟩
      refine ⟨⟨t', List.mem_of_getElem? found', unused', rfl⟩, fun same => other ?_⟩
      have inside' : k < (r.tickets.map Ticket.number).length := by
        rw [List.length_map]
        exact (List.getElem?_eq_some_iff.mp found').1
      apply (List.getElem?_inj inside' sound.numbers).mp
      rw [List.getElem?_map, List.getElem?_map, found, found', Option.map_some, Option.map_some, same]

theorem Sound.communicate (sound : r.Sound size) {names : List Nat} (known : ∀ n ∈ names, n < size) (xOnly : Bool) :
    (r.communicate names xOnly).Sound size := by
  obtain ⟨asked, waiting⟩ := sound.numbered.ask names
  obtain ⟨numbered, waiting'⟩ := asked.finish (t := r.ticket names) ((waiting _).mpr (.inr rfl)) xOnly
  have tickets := r.tickets_communicate names xOnly
  refine ⟨numbered, fun b group => ?_, tickets ▸ sound.numbers, ?_, fun n => ?_⟩
  · rcases List.mem_append.mp group with column | row
    · rw [columns_communicate] at column
      rcases List.mem_append.mp column with earlier | new
      · exact sound.known b (List.mem_append_left _ earlier)
      · obtain rfl := List.mem_singleton.mp new
        exact known
    · rcases (r.ask names).mem_rows_finish _ xOnly row with earlier | rfl
      · exact sound.known b (List.mem_append_right _ earlier)
      · exact known
  · rw [tickets, columns_communicate]
    intro t member
    have before := sound.phases t member
    rw [List.getElem?_append_left (List.getElem?_eq_some_iff.mp before).1, before]
  · rw [tickets, ← sound.waiting]
    refine (waiting' n).trans ?_
    rw [waiting]
    constructor
    · intro holds
      obtain ⟨earlier | new, other⟩ := holds
      · exact earlier
      · exact absurd new other
    · intro earlier
      have less : n < (Step.asks 0 r.plan).length := sound.numbered.orderly.asked.mp earlier.1
      rw [sound.numbered.columns] at less
      exact ⟨.inl earlier, Nat.ne_of_lt less⟩

end Record

namespace Runs
open HaloMesh.Action

variable {size : Nat} {r final : Record} {actions : List Action}

theorem sound (runs : Runs size r actions final) (begins : r.Sound size) : final.Sound size := by
  induction runs with
  | done => exact begins
  | send names known _ ih => exact ih (begins.send known)
  | wait found waiting _ ih => exact ih (begins.wait found waiting)
  | communicate names xOnly known _ ih => exact ih (begins.communicate known xOnly)

/-- The groups of earlier phases stay known. -/
theorem grows (runs : Runs size r actions final) : r.columns <+: final.columns ∧ r.rows <+: final.rows := by
  induction runs with
  | done => exact ⟨List.prefix_rfl, List.prefix_rfl⟩
  | send names _ _ ih => exact ⟨(List.prefix_append _ _).trans ih.1, ih.2⟩
  | @wait r final rest handle t found waiting later ih =>
    exact ⟨(r.columns_finish t false) ▸ ih.1, (r.rows_finish t false).trans ih.2⟩
  | @communicate r final rest names xOnly known later ih =>
    obtain ⟨columns, rows⟩ := ih
    rw [Record.columns_communicate] at columns
    exact ⟨(List.prefix_append _ _).trans columns, ((r.ask names).rows_finish _ xOnly).trans rows⟩

theorem column_kept (runs : Runs size r actions final) {n : Nat} {b : List Nat × List (List Nat × Bool)}
    (found : r.columns[n]? = some b) : final.columns[n]? = some b := by
  obtain ⟨more, whole⟩ := runs.grows.1
  rw [← whole, List.getElem?_append_left (List.getElem?_eq_some_iff.mp found).1, found]

theorem row_kept (runs : Runs size r actions final) {n : Nat} {b : List Nat × List (List Nat × Bool)}
    (found : r.rows[n]? = some b) : final.rows[n]? = some b := by
  obtain ⟨more, whole⟩ := runs.grows.2
  rw [← whole, List.getElem?_append_left (List.getElem?_eq_some_iff.mp found).1, found]

/-- Once all handles are waited for, all exchanges are done. -/
theorem mem_done (runs : Runs size r actions final) (settled : ∀ t ∈ final.tickets, t.used = true)
    (e : List Nat × Bool) : e ∈ final.done ↔
      e ∈ r.done ∨ e ∈ exchanges actions ∨ ∃ t ∈ r.tickets, t.used = false ∧ e = (t.names, false) := by
  induction runs with
  | done r =>
    have none_ : ¬ ∃ t ∈ r.tickets, t.used = false ∧ e = (t.names, false) := by
      intro holds
      obtain ⟨t, member, unused, -⟩ := holds
      simp [settled t member] at unused
    simp [exchanges, none_]
  | @send r final rest names _ _ ih =>
    have opened : (∃ t ∈ (r.send names).tickets, t.used = false ∧ e = (t.names, false)) ↔
        (∃ t ∈ r.tickets, t.used = false ∧ e = (t.names, false)) ∨ e = (names, false) := by
      simp only [Record.send, List.mem_append, List.mem_singleton, or_and_right, exists_or, exists_eq_left, Record.ticket,
        true_and]
    rw [ih settled, opened, exchanges_send, List.mem_cons]
    change (e ∈ r.done ∨ _) ↔ _
    grind
  | @wait r final rest handle t found waiting later ih =>
    have opened : (∃ t' ∈ r.tickets, t'.used = false ∧ e = (t'.names, false)) ↔
        e = (t.names, false) ∨ ∃ t' ∈ (r.wait handle t).tickets, t'.used = false ∧ e = (t'.names, false) := by
      constructor
      · intro holds
        obtain ⟨t', member, unused, same⟩ := holds
        obtain ⟨k, found'⟩ := List.getElem?_of_mem member
        by_cases here : k = handle
        · rw [here, found] at found'
          exact .inl (Option.some.inj found' ▸ same)
        · exact .inr ⟨t', (Record.unused_set.mpr ⟨⟨k, here, found'⟩, unused⟩).1, unused, same⟩
      · rintro (same | ⟨t', member, unused, same⟩)
        · exact ⟨t, List.mem_of_getElem? found, waiting, same⟩
        · obtain ⟨⟨k, -, found'⟩, -⟩ := Record.unused_set.mp ⟨member, unused⟩
          exact ⟨t', List.mem_of_getElem? found', unused, same⟩
    have ended : (r.wait handle t).done = r.done ++ [(t.names, false)] := Record.done_finish ..
    rw [ih settled, opened, exchanges_wait, ended, List.mem_append, List.mem_singleton]
    grind
  | @communicate r final rest names xOnly _ _ ih =>
    rw [ih settled, exchanges_communicate, List.mem_cons, Record.done_communicate, Record.tickets_communicate,
      List.mem_append, List.mem_singleton]
    grind

theorem used_stays (runs : Runs size r actions final) {handle : Nat} {t t' : Ticket}
    (found : r.tickets[handle]? = some t) (used : t.used = true) (left : final.tickets[handle]? = some t') :
    t'.used = true := by
  induction runs generalizing t with
  | done =>
    obtain rfl := Option.some.inj (found.symm.trans left)
    exact used
  | send names _ _ ih =>
    exact ih ((List.getElem?_append_left (List.getElem?_eq_some_iff.mp found).1).trans found) used left
  | @wait r final rest other t₀ found₀ waiting later ih =>
    have apart : other ≠ handle := by
      intro same
      rw [same, found] at found₀
      rw [← Option.some.inj found₀, used] at waiting
      cases waiting
    exact ih ((List.getElem?_set_ne apart).trans found) used left
  | @communicate r final rest names xOnly _ _ ih =>
    rw [← r.tickets_communicate names xOnly] at found
    exact ih found used left

/-- A program can go through all its calls if every wait finds its handle unused. -/
private theorem exists_runs (rest : List Action) (r : Record) (known : ∀ e ∈ exchanges rest, ∀ n ∈ e.1, n < size)
    (later : ∀ first handle others, rest = first ++ .wait handle :: others →
      handle < r.tickets.length + (sends first).length)
    (once : (waits rest).Nodup) (unused : ∀ handle ∈ waits rest, ∀ t, r.tickets[handle]? = some t → t.used = false) :
    ∃ final, Runs size r rest final ∧ final.tickets.length = r.tickets.length + (sends rest).length ∧
      ∀ handle ∈ waits rest, ∀ t, final.tickets[handle]? = some t → t.used = true := by
  induction rest generalizing r with
  | nil => exact ⟨r, .done r, rfl, fun handle member => by cases member⟩
  | cons action rest ih =>
    cases action with
    | send names =>
      obtain ⟨final, runs, count, settled⟩ := ih (r.send names)
        (fun e member => known e (List.mem_cons_of_mem _ member))
        (fun first handle others split => by
          have less := later (.send names :: first) handle others (congrArg _ split)
          rw [sends_send, List.length_cons] at less
          rw [Record.length_send]
          omega)
        once
        (fun handle member t found => by
          rcases Nat.lt_or_ge handle r.tickets.length with inside | beyond
          · exact unused handle member t ((List.getElem?_append_left inside).symm.trans found)
          · have new := List.mem_of_getElem? ((List.getElem?_append_right beyond).symm.trans found)
            rw [List.mem_singleton.mp new]
            rfl)
      refine ⟨final, .send names (known _ List.mem_cons_self) runs, ?_, settled⟩
      rw [count, Record.length_send, sends_send, List.length_cons]
      omega
    | wait handle =>
      have inside : handle < r.tickets.length := by simpa [sends] using later [] handle rest rfl
      have found := List.getElem?_eq_getElem inside
      have waiting := unused handle List.mem_cons_self _ found
      obtain ⟨fresh, once⟩ := List.nodup_cons.mp once
      have count : (r.wait handle r.tickets[handle]).tickets.length = r.tickets.length := List.length_set
      have spent : (r.wait handle r.tickets[handle]).tickets[handle]? = some { r.tickets[handle] with used := true } :=
        List.getElem?_set_self inside
      obtain ⟨final, runs, count', settled⟩ := ih (r.wait handle r.tickets[handle]) known
        (fun first other others split => by
          rw [count]
          exact later (.wait handle :: first) other others (congrArg _ split))
        once
        (fun other member t found' => by
          have apart : handle ≠ other := fun same => fresh (same ▸ member)
          exact unused other (List.mem_cons_of_mem _ member) t ((List.getElem?_set_ne apart).symm.trans found'))
      refine ⟨final, .wait found waiting runs, count'.trans (by rw [count]; rfl), fun other member t left => ?_⟩
      rcases List.mem_cons.mp member with rfl | among
      · exact runs.used_stays spent rfl left
      · exact settled other among t left
    | communicate names xOnly =>
      obtain ⟨final, runs, count, settled⟩ := ih (r.communicate names xOnly)
        (fun e member => known e (List.mem_cons_of_mem _ member))
        (fun first handle others split => by
          rw [Record.tickets_communicate]
          exact later (.communicate names xOnly :: first) handle others (congrArg _ split))
        once (by rwa [Record.tickets_communicate])
      refine ⟨final, .communicate names xOnly (known _ List.mem_cons_self) runs, ?_, settled⟩
      rwa [Record.tickets_communicate] at count

end Runs

/-- Settled programs wait for all their handles. -/
theorem Action.Settled.runs {size : Nat} {actions : List Action} (settled : Settled actions)
    (known : ∀ e ∈ exchanges actions, ∀ n ∈ e.1, n < size) :
    ∃ final, Runs size Record.start actions final ∧ ∀ t ∈ final.tickets, t.used = true := by
  have once : (waits actions).Nodup := settled.permuted.nodup_iff.mpr List.nodup_range
  obtain ⟨final, runs, count, used⟩ := Runs.exists_runs actions Record.start known
    (fun first handle rest split => by simpa [Record.start] using settled.later first handle rest split) once
    (fun handle _ t found => by simp [Record.start] at found)
  refine ⟨final, runs, fun t member => ?_⟩
  obtain ⟨handle, found⟩ := List.getElem?_of_mem member
  have inside := (List.getElem?_eq_some_iff.mp found).1
  refine used handle (settled.permuted.mem_iff.mpr (List.mem_range.mpr ?_)) t found
  simpa [count, Record.start] using inside

end HaloMesh
