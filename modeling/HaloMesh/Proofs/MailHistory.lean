import HaloMesh.Proofs.ProgramPath
import HaloMesh.Transport.World
import Mathlib.Data.List.Nodup

/-! What the ranks of a world have asked of their mail, in the order in which it was answered.
Any rank may move at any time and any wait may be given up at any time. The mail box is a
function of this history: it holds the posts that were not delivered, under their numbers. -/

namespace HaloMesh.Transport
open Event

variable {μ β : Type}

namespace MailBox

theorem slot_putSlot (key other : MailKey) (s : Slot μ) (slots : List (MailKey × Slot μ)) :
    (MailBox.mk (putSlot key s slots)).slot other = if other = key then s else (MailBox.mk slots).slot other := by
  induction slots with
  | nil =>
    by_cases same : other = key
    · simp [slot, putSlot, same]
    · simp [slot, putSlot, same, Ne.symm same]
  | cons entry rest ih =>
    simp only [putSlot]
    by_cases found : entry.1 = key
    · by_cases same : other = key
      · simp [slot, found, same]
      · have apart : ¬ entry.1 = other := fun equal => same (equal.symm.trans found)
        simp [slot, found, same, Ne.symm same]
    · simp only [found, ↓reduceIte]
      by_cases here : entry.1 = other
      · have apart : ¬ other = key := fun equal => found (here.trans equal)
        simp [slot, here, apart]
      · simpa [slot, here] using ih

theorem slot_update (box : MailBox μ) (key other : MailKey) (change : Slot μ → Slot μ) :
    (box.update key change).slot other = if other = key then change (box.slot key) else box.slot other :=
  slot_putSlot key other _ box.slots

@[simp] theorem slot_empty (key : MailKey) : (empty : MailBox μ).slot key = {} := rfl

end MailBox

namespace Event

/-- The messages of a key that were posted and not delivered, under their numbers. -/
def waiting (key : MailKey) (events : List (Event μ)) : List (Nat × μ) :=
  ((posts key events).zipIdx.map Prod.swap).filter fun m => (m.1 : Int) ∉ deliveries key events

theorem mem_waiting {key : MailKey} {events : List (Event μ)} {number : Nat} {message : μ} :
    (number, message) ∈ waiting key events ↔
      (posts key events)[number]? = some message ∧ (number : Int) ∉ deliveries key events := by
  simp [waiting, List.mem_zipIdx_iff_getElem?]

theorem waiting_number_unique {key : MailKey} {events : List (Event μ)} {number : Nat} {first second : μ}
    (left : (number, first) ∈ waiting key events) (right : (number, second) ∈ waiting key events) :
    first = second := by
  rw [mem_waiting] at left right
  exact Option.some.inj (left.1.symm.trans right.1)

/-- Claims are numbered in order, a message is delivered under the number it was posted with,
and no message is delivered twice. -/
structure Lawful (events : List (Event μ)) : Prop where
  numbered : ∀ key, claims key events = List.range (claims key events).length
  matched : ∀ key number message, receive key number (some message) ∈ events →
    ∃ n : Nat, number = n ∧ (posts key events)[n]? = some message
  once : ∀ key, (deliveries key events).Nodup

theorem Lawful.delivery_bound {events : List (Event μ)} (lawful : Lawful events) {key : MailKey} {number : Int}
    (member : number ∈ deliveries key events) : number < (posts key events).length := by
  obtain ⟨message, received⟩ := mem_deliveries.mp member
  obtain ⟨n, rfl, found⟩ := lawful.matched key number message received
  have inside := (List.getElem?_eq_some_iff.mp found).1
  omega

end Event

/-- The mail box holds exactly what the events have left in it. -/
structure Records (events : List (Event μ)) (box : MailBox μ) : Prop where
  lawful : Lawful events
  posted : ∀ key, (box.slot key).posted = (posts key events).length
  claimed : ∀ key, (box.slot key).claimed = (claims key events).length
  parked : ∀ key, (box.slot key).parked = waiting key events

namespace Records

variable {events : List (Event μ)} {box : MailBox μ}

theorem initial : Records ([] : List (Event μ)) MailBox.empty where
  lawful := ⟨fun _ => rfl, (fun _ _ _ impossible => by cases impossible), fun _ => List.nodup_nil⟩
  posted _ := rfl
  claimed _ := rfl
  parked _ := rfl

theorem find_iff (records : Records events box) (key : MailKey) (number : Int) (message : μ) :
    (box.slot key).find? number = some message ↔
      ∃ n : Nat, number = n ∧ (posts key events)[n]? = some message ∧ number ∉ deliveries key events := by
  simp only [Slot.find?, records.parked key, Option.map_eq_some_iff]
  constructor
  · intro holds
    obtain ⟨⟨n, found⟩, first, rfl⟩ := holds
    have same : (n : Int) = number := by simpa using List.find?_some first
    obtain ⟨posted, fresh⟩ := mem_waiting.mp (List.mem_of_find?_eq_some first)
    exact ⟨n, same.symm, posted, same ▸ fresh⟩
  · intro holds
    obtain ⟨n, rfl, posted, fresh⟩ := holds
    have member := mem_waiting.mpr ⟨posted, fresh⟩
    cases first : (waiting key events).find? (fun m => (m.1 : Int) = n) with
    | none => exact absurd (List.find?_eq_none.mp first _ member) (by simp)
    | some entry =>
      obtain ⟨k, other⟩ := entry
      have same : (k : Int) = n := by simpa using List.find?_some first
      obtain rfl : k = n := by omega
      exact ⟨_, rfl, waiting_number_unique (List.mem_of_find?_eq_some first) member⟩

/-- An event of one key changes the mail of this key only, so only this key has to be looked at. -/
theorem extend {box' : MailBox μ} {event : Event μ} {s : Slot μ} (records : Records events box) (key : MailKey)
    (elsewhere : ∀ other, other ≠ key → posted? other event = none ∧ claimed? other event = none ∧
      delivered? other event = none)
    (slots : ∀ other, box'.slot other = if other = key then s else box.slot other)
    (lawful : Lawful (events ++ [event]))
    (posted : s.posted = (posts key (events ++ [event])).length)
    (claimed : s.claimed = (claims key (events ++ [event])).length)
    (parked : s.parked = waiting key (events ++ [event])) : Records (events ++ [event]) box' := by
  have same (other : MailKey) (apart : other ≠ key) : posts other (events ++ [event]) = posts other events ∧
      claims other (events ++ [event]) = claims other events ∧
      deliveries other (events ++ [event]) = deliveries other events := by
    obtain ⟨noPost, noClaim, noDelivery⟩ := elsewhere other apart
    exact ⟨by simp [noPost], by simp [noClaim], by simp [noDelivery]⟩
  refine ⟨lawful, ?_, ?_, ?_⟩
  all_goals
    intro other
    rw [slots]
    split
    next here => subst here; assumption
    next apart => first
      | rw [(same other apart).1]; exact records.posted other
      | rw [(same other apart).2.1]; exact records.claimed other
      | rw [waiting, (same other apart).1, (same other apart).2.2]; exact records.parked other

theorem lawful_append (lawful : Lawful events) (event : Event μ)
    (numbered : ∀ key number, claimed? key event = some number → number = (claims key events).length)
    (matched : ∀ key number message, event = .receive key number (some message) →
      ∃ n : Nat, number = n ∧ (posts key events)[n]? = some message)
    (once : ∀ key number, delivered? key event = some number → number ∉ deliveries key events) :
    Lawful (events ++ [event]) := by
  refine ⟨?_, ?_, ?_⟩
  · intro key
    cases claim : claimed? key event with
    | none => simpa [claim] using lawful.numbered key
    | some number =>
      have next := numbered key number claim
      have all : claims key (events ++ [event]) = claims key events ++ [number] := by simp [claim]
      rw [all, List.length_append, List.length_singleton, List.range_succ, ← lawful.numbered key, next]
  · intro key number message member
    have found : ∃ n : Nat, number = n ∧ (posts key events)[n]? = some message := by
      rcases List.mem_append.mp member with earlier | last
      · exact lawful.matched key number message earlier
      · exact matched key number message (List.mem_singleton.mp last).symm
    obtain ⟨n, rfl, posted⟩ := found
    refine ⟨n, rfl, ?_⟩
    rw [posts_append, List.getElem?_append_left (List.getElem?_eq_some_iff.mp posted).1]
    exact posted
  · intro key
    cases delivery : delivered? key event with
    | none => simpa [delivery] using lawful.once key
    | some number =>
      have all : deliveries key (events ++ [event]) = deliveries key events ++ [number] := by
        simp [delivery]
      rw [all]
      exact (lawful.once key).append (List.nodup_singleton _) (by simpa using once key number delivery)

theorem post (records : Records events box) (key : MailKey) (message : μ) :
    Records (events ++ [.post key message]) (box.post key message) := by
  -- the new number is beyond all that were delivered
  have fresh : ((posts key events).length : Int) ∉ deliveries key events := fun member => by
    have := records.lawful.delivery_bound member
    omega
  refine records.extend key ?_ (fun other => MailBox.slot_update ..) ?_ ?_ ?_ ?_
  · intro other apart
    simp [posted?, claimed?, delivered?, Ne.symm apart]
  · refine lawful_append records.lawful _ ?_ ?_ ?_
    · simp [claimed?]
    · intro _ _ _ impossible
      cases impossible
    · simp [delivered?]
  · simp [Slot.post, posted?, records.posted]
  · simp [Slot.post, claimed?, records.claimed]
  · simp [Slot.post, records.parked, records.posted, waiting, posted?, delivered?, List.zipIdx_append, fresh]

theorem claim (records : Records events box) (key : MailKey) :
    Records (events ++ [.claim key (box.slot key).claimed]) (box.claim key).2 := by
  refine records.extend key ?_ (fun other => MailBox.slot_update ..) ?_ ?_ ?_ ?_
  · intro other apart
    simp [posted?, claimed?, delivered?, Ne.symm apart]
  · refine lawful_append records.lawful _ ?_ ?_ ?_
    · intro other number claimed
      simp only [claimed?, Option.ite_none_right_eq_some, Option.some.injEq] at claimed
      obtain ⟨rfl, rfl⟩ := claimed
      exact records.claimed key
    · intro _ _ _ impossible
      cases impossible
    · simp [delivered?]
  · simp [Slot.claim, posted?, records.posted]
  · simp [Slot.claim, claimed?, records.claimed]
  · simp [Slot.claim, waiting, posted?, delivered?, records.parked]

theorem take {key : MailKey} {number : Int} {message : μ} {box' : MailBox μ} (records : Records events box)
    (taken : box.take? key number = some (message, box')) :
    Records (events ++ [.receive key number (some message)]) box' := by
  simp only [MailBox.take?, Option.map_eq_some_iff, Prod.mk.injEq] at taken
  obtain ⟨content, found, rfl, rfl⟩ := taken
  obtain ⟨n, rfl, posted, fresh⟩ := (records.find_iff key number content).mp found
  refine records.extend key ?_ (fun other => MailBox.slot_update ..) ?_ ?_ ?_ ?_
  · intro other apart
    simp [posted?, claimed?, delivered?, Ne.symm apart]
  · refine lawful_append records.lawful _ ?_ ?_ ?_
    · simp [claimed?]
    · intro _ _ _ same
      cases same
      exact ⟨n, rfl, posted⟩
    · intro other number delivered
      simp only [delivered?, Option.ite_none_right_eq_some, Option.some.injEq] at delivered
      obtain ⟨rfl, rfl⟩ := delivered
      exact fresh
  · simp [Slot.discard, posted?, records.posted]
  · simp [Slot.discard, claimed?, records.claimed]
  · simp [Slot.discard, records.parked, waiting, posted?, delivered?, List.filter_filter, not_or, and_comm]

theorem idle (records : Records events box) {event : Event μ} (noPost : ∀ key, posted? key event = none)
    (noClaim : ∀ key, claimed? key event = none) (noDelivery : ∀ key, delivered? key event = none) :
    Records (events ++ [event]) box := by
  refine ⟨lawful_append records.lawful _ (by simp [noClaim]) ?_ (by simp [noDelivery]), ?_, ?_, ?_⟩
  · intro key number message same
    subst same
    simpa [delivered?] using noDelivery key
  · intro key
    simpa [noPost] using records.posted key
  · intro key
    simpa [noClaim] using records.claimed key
  · intro key
    simpa [waiting, noPost, noDelivery] using records.parked key

end Records

def Program.event? : Program μ β → MailBox μ → Option (Event μ)
  | finished _, _ => none
  | post key message _, _ => some (.post key message)
  | claim key _, box => some (.claim key (box.slot key).claimed)
  | receive key number _, box => (box.take? key number).map fun taken => .receive key number (some taken.1)
  | pending sender receiver _, box => some (.pending sender receiver (box.pendingTags sender receiver))

/-- Every step of a program is the answer to one request, and the box records it. -/
theorem Program.step_event {p q : Program μ β} {box box' : MailBox μ}
    (stepped : p.step? box = some (q, box')) : ∃ event, p.event? box = some event ∧ Path p [event] q ∧
      ∀ events, Records events box → Records (events ++ [event]) box' := by
  cases p with
  | finished => simp [step?] at stepped
  | post key message next =>
    simp only [step?, Option.some.injEq, Prod.mk.injEq] at stepped
    obtain ⟨rfl, rfl⟩ := stepped
    exact ⟨_, rfl, .post (.here _), fun _ records => records.post key message⟩
  | claim key next =>
    simp only [step?, Option.some.injEq, Prod.mk.injEq] at stepped
    obtain ⟨rfl, rfl⟩ := stepped
    exact ⟨_, rfl, .claim _ (.here _), fun _ records => records.claim key⟩
  | receive key number next =>
    simp only [step?, Option.map_eq_some_iff] at stepped
    obtain ⟨⟨message, left⟩, taken, same⟩ := stepped
    simp only [Prod.mk.injEq] at same
    obtain ⟨rfl, rfl⟩ := same
    exact ⟨_, by simp [event?, taken], .receive _ (.here _), fun _ records => records.take taken⟩
  | pending sender receiver next =>
    simp only [step?, Option.some.injEq, Prod.mk.injEq] at stepped
    obtain ⟨rfl, rfl⟩ := stepped
    exact ⟨_, rfl, .pending _ (.here _), fun _ records => records.idle (fun _ => rfl) (fun _ => rfl) (fun _ => rfl)⟩

structure Situation (μ β : Type) where
  ranks : List (Program μ β)
  box : MailBox μ

/-- One rank gets the answer to its request. -/
inductive Moves : Situation μ β → Situation μ β → Prop where
  | answered {ranks : List (Program μ β)} {box box' : MailBox μ} {p q : Program μ β} (rank : Nat)
      (found : ranks[rank]? = some p) (stepped : p.step? box = some (q, box')) :
      Moves ⟨ranks, box⟩ ⟨ranks.set rank q, box'⟩

/-- What a world has done since its start: ranks were answered, or gave up waiting, in any order. -/
inductive History (start : Situation μ β) : List (Nat × Event μ) → Situation μ β → Prop where
  | start : History start [] start
  | answered {ranks : List (Program μ β)} {box box' : MailBox μ} {p q : Program μ β} {event : Event μ}
      {history : List (Nat × Event μ)} (before : History start history ⟨ranks, box⟩) (rank : Nat)
      (found : ranks[rank]? = some p) (stepped : p.step? box = some (q, box'))
      (answer : p.event? box = some event) :
      History start (history ++ [(rank, event)]) ⟨ranks.set rank q, box'⟩
  | expired {ranks : List (Program μ β)} {box : MailBox μ} {p q : Program μ β} {key : MailKey} {number : Int}
      {next : Option μ → Program μ β} {history : List (Nat × Event μ)}
      (before : History start history ⟨ranks, box⟩) (rank : Nat) (found : ranks[rank]? = some p)
      (waits : p = .receive key number next) (expires : p.expire? = some q) :
      History start (history ++ [(rank, .receive key number none)]) ⟨ranks.set rank q, box⟩

def ofRank (rank : Nat) (history : List (Nat × Event μ)) : List (Event μ) :=
  history.filterMap fun entry => if entry.1 = rank then some entry.2 else none

def allEvents (history : List (Nat × Event μ)) : List (Event μ) := history.map Prod.snd

@[simp] theorem ofRank_append (rank : Nat) (first second : List (Nat × Event μ)) :
    ofRank rank (first ++ second) = ofRank rank first ++ ofRank rank second := List.filterMap_append

@[simp] theorem ofRank_singleton (rank other : Nat) (event : Event μ) :
    ofRank rank [(other, event)] = if other = rank then [event] else [] := by
  by_cases same : other = rank <;> simp [ofRank, same]

@[simp] theorem allEvents_append (first second : List (Nat × Event μ)) :
    allEvents (first ++ second) = allEvents first ++ allEvents second := List.map_append

@[simp] theorem allEvents_singleton (entry : Nat × Event μ) : allEvents [entry] = [entry.2] := rfl

theorem mem_ofRank {rank : Nat} {history : List (Nat × Event μ)} {event : Event μ} :
    event ∈ ofRank rank history ↔ (rank, event) ∈ history := by
  simp only [ofRank, List.mem_filterMap, Option.ite_none_right_eq_some, Option.some.injEq]
  constructor
  · intro holds
    obtain ⟨⟨other, content⟩, member, rfl, rfl⟩ := holds
    exact member
  · intro member
    exact ⟨_, member, rfl, rfl⟩

/-- What only one rank does can be read off the events of this rank. -/
theorem filterMap_allEvents {γ : Type} (read : Event μ → Option γ) (rank : Nat) (history : List (Nat × Event μ))
    (own : ∀ other event, (other, event) ∈ history → (read event).isSome → other = rank) :
    (allEvents history).filterMap read = (ofRank rank history).filterMap read := by
  induction history with
  | nil => rfl
  | cons entry rest ih =>
    obtain ⟨other, event⟩ := entry
    have later := ih fun other event member => own other event (List.mem_cons_of_mem _ member)
    simp only [allEvents, ofRank, List.map_cons, List.filterMap_cons] at later ⊢
    by_cases same : other = rank
    · simp only [same, ↓reduceIte, List.filterMap_cons, later]
    · have nothing : read event = none := by
        by_contra something
        exact same (own other event List.mem_cons_self (Option.isSome_iff_ne_none.mpr something))
      simp only [same, ↓reduceIte, nothing, later]

section Owned

variable {history : List (Nat × Event μ)} {key : MailKey} {rank : Nat}

theorem posts_allEvents (own : ∀ other message, (other, .post key message) ∈ history → other = rank) :
    posts key (allEvents history) = posts key (ofRank rank history) := by
  apply filterMap_allEvents _ rank history
  intro other event member posted
  obtain ⟨message, found⟩ := Option.isSome_iff_exists.mp posted
  obtain rfl := posted?_eq_some.mp found
  exact own other message member

theorem claims_allEvents (own : ∀ other number, (other, .claim key number) ∈ history → other = rank) :
    claims key (allEvents history) = claims key (ofRank rank history) := by
  apply filterMap_allEvents _ rank history
  intro other event member claimed
  obtain ⟨number, found⟩ := Option.isSome_iff_exists.mp claimed
  obtain rfl := claimed?_eq_some.mp found
  exact own other number member

theorem deliveries_allEvents
    (own : ∀ other number message, (other, .receive key number (some message)) ∈ history → other = rank) :
    deliveries key (allEvents history) = deliveries key (ofRank rank history) := by
  apply filterMap_allEvents _ rank history
  intro other event member delivered
  obtain ⟨number, found⟩ := Option.isSome_iff_exists.mp delivered
  obtain ⟨message, rfl⟩ := delivered?_eq_some.mp found
  exact own other number message member

end Owned

namespace History

variable {start state : Situation μ β} {history : List (Nat × Event μ)}

/-- The mail box of any moment records the history so far. -/
theorem records (past : History start history state) (fresh : start.box = MailBox.empty) :
    Records (allEvents history) state.box := by
  induction past with
  | start =>
    rw [fresh]
    exact Records.initial
  | answered before rank found stepped answer ih =>
    obtain ⟨event, same, -, keeps⟩ := Program.step_event stepped
    rw [answer, Option.some.injEq] at same
    subst same
    simpa using keeps _ ih
  | expired before rank found waits expires ih =>
    simpa using ih.idle (fun _ => rfl) (fun _ => rfl) (fun _ => rfl)

/-- Each rank has gone through its own events, and through no others. -/
theorem path (past : History start history state) (rank : Nat) (p : Program μ β)
    (begun : start.ranks[rank]? = some p) :
    ∃ q, state.ranks[rank]? = some q ∧ Program.Path p (ofRank rank history) q := by
  induction past with
  | start => exact ⟨p, begun, .here p⟩
  | @answered ranks box box' old new event history before other found stepped answer ih =>
    obtain ⟨q, current, path⟩ := ih
    obtain ⟨_, same, step, -⟩ := Program.step_event stepped
    rw [answer, Option.some.injEq] at same
    subst same
    by_cases own : other = rank
    · subst own
      obtain rfl : old = q := Option.some.inj (found.symm.trans current)
      have inside := (List.getElem?_eq_some_iff.mp found).1
      exact ⟨new, by simp [inside], by simpa using path.trans step⟩
    · exact ⟨q, by simpa [own] using current, by simpa [own] using path⟩
  | @expired ranks box old new key number next history before other found waits expires ih =>
    obtain ⟨q, current, path⟩ := ih
    by_cases own : other = rank
    · subst own
      obtain rfl : old = q := Option.some.inj (found.symm.trans current)
      have inside := (List.getElem?_eq_some_iff.mp found).1
      subst waits
      obtain rfl : next none = new := Option.some.inj expires
      exact ⟨next none, by simp [inside], by simpa using path.trans (.receive none (.here _))⟩
    · exact ⟨q, by simpa [own] using current, by simpa [own] using path⟩

theorem length_ranks (past : History start history state) : state.ranks.length = start.ranks.length := by
  induction past with
  | start => rfl
  | answered before rank found stepped answer ih => simpa using ih
  | expired before rank found waits expires ih => simpa using ih

theorem rank_lt (past : History start history state) {rank : Nat} {event : Event μ}
    (member : (rank, event) ∈ history) : rank < start.ranks.length := by
  induction past with
  | start => cases member
  | answered before other found stepped answer ih =>
    rcases List.mem_append.mp member with earlier | last
    · exact ih earlier
    · obtain ⟨rfl, rfl⟩ : rank = other ∧ event = _ := by simpa using last
      rw [← before.length_ranks]
      exact (List.getElem?_eq_some_iff.mp found).1
  | expired before other found waits expires ih =>
    rcases List.mem_append.mp member with earlier | last
    · exact ih earlier
    · obtain ⟨rfl, rfl⟩ : rank = other ∧ event = _ := by simpa using last
      rw [← before.length_ranks]
      exact (List.getElem?_eq_some_iff.mp found).1

end History

end HaloMesh.Transport
