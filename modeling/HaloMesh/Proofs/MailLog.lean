import HaloMesh.Proofs.MailHistory
import HaloMesh.Transport.MailCall
import Mathlib.Data.List.Sort

/-! Calls of a mail box in any order. What a call is told follows from the log of its key: the messages that were posted, the
numbers that were claimed and the messages that were delivered. The boxes in which messages change hands, which receivers
make too early or leave behind, show nothing of themselves. -/

namespace HaloMesh.Transport
open Event

variable {μ β : Type}

/-! Lists with one entry for a key. -/

section Entries

/-- What is kept for a key. -/
def kept {κ : Type} [DecidableEq κ] (default : β) (entries : List (κ × β)) (key : κ) : β :=
  ((entries.find? fun e => e.1 = key).map Prod.snd).getD default

theorem find?_without {γ κ : Type} [DecidableEq κ] (keyOf : γ → κ) (items : List γ) (key other : κ) :
    ((items.filter fun item => keyOf item ≠ key).find? fun item => keyOf item = other) =
      if other = key then none else items.find? fun item => keyOf item = other := by
  rw [List.find?_filter]
  split
  next same =>
    refine List.find?_eq_none.mpr fun item _ => ?_
    simp [same]
  next apart =>
    refine congrArg (List.find? · items) (funext fun item => ?_)
    by_cases here : keyOf item = other <;> simp [here, apart]

theorem full_kept_iff {κ : Type} [DecidableEq κ] {entries : List (κ × β)} {key : κ} {full : β → Bool} (default : β)
    (nothing : full default = false) (distinct : (entries.map Prod.fst).Nodup) :
    full (kept default entries key) = true ↔ ∃ v, (key, v) ∈ entries ∧ full v = true := by
  induction entries with
  | nil => simp [kept, nothing]
  | cons entry rest ih =>
    obtain ⟨fresh, later⟩ := List.nodup_cons.mp distinct
    obtain ⟨mine, content⟩ := entry
    by_cases here : mine = key
    · subst here
      have none (v : β) : (mine, v) ∉ rest := fun member => fresh (List.mem_map.mpr ⟨_, member, rfl⟩)
      simp [kept, none]
    · have skip : kept default ((mine, content) :: rest) key = kept default rest key := by
        rw [kept, List.find?_cons_of_neg (by simpa using here), kept]
      simpa [skip, Ne.symm here] using ih later

variable {entries : List (MailKey × β)} {key other : MailKey} {v : β}

/-- The tags of the entries between two ranks that are full, in ascending order. -/
def tagsOf (full : β → Bool) (entries : List (MailKey × β)) (sender receiver : Int) : List Int :=
  ((entries.filter fun (key, v) => key.sender = sender && key.receiver = receiver && full v).map fun e => e.1.tag).mergeSort
    fun a b => decide (a ≤ b)

theorem kept_putSlot (default : β) (entries : List (MailKey × β)) : kept default (MailBox.putSlot key v entries) other =
    if other = key then v else kept default entries other := by
  induction entries with
  | nil => by_cases same : key = other <;> simp [kept, MailBox.putSlot, same, eq_comm]
  | cons entry rest ih =>
    rw [MailBox.putSlot]
    by_cases here : entry.1 = key
    · by_cases same : key = other <;> simp [kept, here, same, eq_comm]
    · by_cases found : entry.1 = other
      · have apart : other ≠ key := fun same => here (found.trans same)
        simp [kept, found, apart]
      · simpa [kept, here, found] using ih

theorem mem_keys_putSlot : other ∈ (MailBox.putSlot key v entries).map Prod.fst ↔ other = key ∨ other ∈ entries.map Prod.fst := by
  induction entries with
  | nil => simp [MailBox.putSlot]
  | cons entry rest ih =>
    rw [MailBox.putSlot]
    split
    next here => simp [here]
    next => simp only [List.map_cons, List.mem_cons, ih, or_left_comm]

theorem nodup_putSlot (distinct : (entries.map Prod.fst).Nodup) : ((MailBox.putSlot key v entries).map Prod.fst).Nodup := by
  induction entries with
  | nil => simp [MailBox.putSlot]
  | cons entry rest ih =>
    obtain ⟨fresh, later⟩ := List.nodup_cons.mp distinct
    rw [MailBox.putSlot]
    split
    next here => exact List.nodup_cons.mpr ⟨here ▸ fresh, later⟩
    next apart =>
      refine List.nodup_cons.mpr ⟨fun member => ?_, ih later⟩
      exact (mem_keys_putSlot.mp member).elim apart fresh

theorem mem_tagsOf {full : β → Bool} {sender receiver tag : Int} :
    tag ∈ tagsOf full entries sender receiver ↔ ∃ v, (⟨sender, receiver, tag⟩, v) ∈ entries ∧ full v = true := by
  rw [tagsOf, List.mem_mergeSort, List.mem_map]
  constructor
  · rintro ⟨⟨⟨_, _, _⟩, v⟩, member, rfl⟩
    obtain ⟨inside, matching⟩ := List.mem_filter.mp member
    obtain ⟨⟨rfl, rfl⟩, filled⟩ := by simpa using matching
    exact ⟨v, inside, filled⟩
  · rintro ⟨v, inside, filled⟩
    exact ⟨_, List.mem_filter.mpr ⟨inside, by simp [filled]⟩, rfl⟩

theorem ascending_tagsOf {full : β → Bool} {sender receiver : Int} (distinct : (entries.map Prod.fst).Nodup) :
    (tagsOf full entries sender receiver).Pairwise (· < ·) := by
  have sorted : (tagsOf full entries sender receiver).Pairwise fun a b => a ≤ b := by
    refine (List.pairwise_mergeSort ?_ ?_ _).imp of_decide_eq_true
    · simpa using fun _ _ _ => Int.le_trans
    · simpa using Int.le_total
  have single : (tagsOf full entries sender receiver).Nodup := by
    refine (List.mergeSort_perm _ _).nodup_iff.mpr (List.pairwise_map.mpr ?_)
    refine ((List.pairwise_map.mp distinct).filter _).imp_of_mem fun {one other} left right apart same => apart ?_
    obtain ⟨-, here⟩ := List.mem_filter.mp left
    obtain ⟨-, there⟩ := List.mem_filter.mp right
    simp only [Bool.and_eq_true, decide_eq_true_eq] at here there
    rw [MailKey.mk.injEq]
    exact ⟨here.1.1.trans there.1.1.symm, here.1.2.trans there.1.2.symm, same⟩
  exact (sorted.and single).imp Int.lt_iff_le_and_ne.mpr

end Entries

/-! Boxes. -/

namespace Tray

variable {t : Tray μ} {number other : Int} {message : μ}

@[simp] theorem posted_withBox : (t.withBox number).posted = t.posted := by unfold withBox; split <;> rfl

@[simp] theorem claimed_withBox : (t.withBox number).claimed = t.claimed := by unfold withBox; split <;> rfl

/-- A new box is empty. -/
@[simp] theorem held?_withBox : (t.withBox number).held? other = t.held? other := by
  unfold withBox
  split
  · rfl
  · simp only [held?, List.find?_append]
    cases t.boxes.find? fun b => b.1 = other with
    | some b => rfl
    | none => by_cases same : number = other <;> simp [same]

theorem hasBox_iff : (t.boxes.any fun b => b.1 = number) = true ↔ number ∈ t.boxes.map Prod.fst := by
  simp [List.any_eq_true]

theorem mem_withBox : number ∈ (t.withBox number).boxes.map Prod.fst := by
  unfold withBox
  split
  next there => exact hasBox_iff.mp there
  next => simp

theorem nodup_withBox (distinct : (t.boxes.map Prod.fst).Nodup) : ((t.withBox number).boxes.map Prod.fst).Nodup := by
  unfold withBox
  split
  next => exact distinct
  next absent =>
    rw [hasBox_iff] at absent
    rw [List.map_append]
    exact distinct.append (List.nodup_singleton _) (List.disjoint_singleton.mpr absent)

theorem held?_without : held? { t with boxes := t.boxes.filter fun b => b.1 ≠ number } other =
    if other = number then none else t.held? other := by
  simp only [held?, find?_without (fun b : Int × Option μ => b.1)]
  split <;> rfl

/-- A message is put into its box and into no other. -/
theorem put?_eq (room : t.held? number = none) (there : number ∈ t.boxes.map Prod.fst) (message : μ) :
    ∃ boxes, t.put? number message = some { t with boxes } ∧ boxes.map Prod.fst = t.boxes.map Prod.fst ∧
      ∀ other, { t with boxes }.held? other = if other = number then some message else t.held? other := by
  let fill (b : Int × Option μ) : Int × Option μ := if b.1 = number then (number, some message) else b
  have same (b : Int × Option μ) : (fill b).1 = b.1 := by
    by_cases here : b.1 = number <;> simp [fill, here]
  refine ⟨t.boxes.map fill, by rw [put?, room], ?_, fun other => ?_⟩
  · rw [List.map_map]
    exact List.map_congr_left fun b _ => same b
  · have found : ((t.boxes.map fill).find? fun b => b.1 = other) = (t.boxes.find? fun b => b.1 = other).map fill := by
      rw [List.find?_map]
      simp only [Function.comp_def, same]
    simp only [held?, found]
    cases mine : t.boxes.find? fun b => b.1 = other with
    | none =>
      have absent : other ≠ number := by
        rintro rfl
        obtain ⟨b, member, equal⟩ := List.mem_map.mp there
        exact List.find?_eq_none.mp mine b member (decide_eq_true equal)
      simp [absent]
    | some b =>
      obtain rfl : b.1 = other := by simpa using List.find?_some mine
      by_cases here : b.1 = number <;> simp [fill, here]

end Tray

namespace Slot

variable {s : Slot μ} {number other : Int} {message : μ}

theorem find?_post : (s.post message).find? number = (s.find? number).or (if number = s.posted then some message else none) := by
  simp only [post, find?, List.find?_append]
  cases s.parked.find? fun m => (m.1 : Int) = number with
  | some m => rfl
  | none => by_cases same : number = s.posted <;> simp [same, eq_comm]

theorem find?_discard : (s.discard number).find? other = if other = number then none else s.find? other := by
  simp only [discard, find?, find?_without (fun m : Nat × μ => (m.1 : Int))]
  split <;> rfl

theorem parked_iff : s.parked.isEmpty = false ↔ ∃ number, (s.find? number).isSome = true := by
  simp only [find?, Option.isSome_map, List.find?_isSome, List.isEmpty_eq_false_iff_exists_mem]
  constructor
  · rintro ⟨m, member⟩
    exact ⟨m.1, m, member, decide_eq_true rfl⟩
  · rintro ⟨-, m, member, -⟩
    exact ⟨m, member⟩

end Slot

namespace Tray

variable {t : Tray μ} {s : Slot μ}

/-- What a tray shows is what is kept without boxes. -/
structure Shows (t : Tray μ) (s : Slot μ) : Prop where
  posted : t.posted = s.posted
  claimed : t.claimed = s.claimed
  held : ∀ number, t.held? number = s.find? number
  distinct : (t.boxes.map Prod.fst).Nodup

namespace Shows

theorem empty : ({} : Tray μ).Shows {} := ⟨rfl, rfl, fun _ => rfl, List.nodup_nil⟩

/-- Whether some box is full can be asked by number, as no two boxes have the same. -/
theorem isWaiting_eq (seen : t.Shows s) : t.isWaiting = !s.parked.isEmpty := by
  have full (number : Int) : (s.find? number).isSome = true ↔ ∃ v, (number, v) ∈ t.boxes ∧ v.isSome = true := by
    rw [← seen.held]
    exact full_kept_iff none rfl seen.distinct
  rw [Bool.eq_iff_iff, Bool.not_eq_true', Slot.parked_iff, isWaiting, List.any_eq_true]
  simp only [full]
  exact ⟨fun ⟨b, member, some_⟩ => ⟨b.1, b.2, member, some_⟩, fun ⟨number, v, member, some_⟩ => ⟨_, member, some_⟩⟩

/-- The box of a new number is empty, so that its sender never waits. -/
theorem post (seen : t.Shows s) (room : s.find? s.posted = none) (message : μ) :
    ∃ t', t.post? message = some t' ∧ t'.Shows (s.post message) := by
  have free : (t.withBox t.posted).held? t.posted = none := by
    rw [held?_withBox, seen.held, seen.posted, room]
  obtain ⟨boxes, stored, keys, held⟩ :=
    put?_eq (t := { t.withBox t.posted with posted := t.posted + 1 }) free mem_withBox message
  refine ⟨_, stored, congrArg (· + 1) seen.posted, claimed_withBox.trans seen.claimed, fun number => ?_,
    keys ▸ nodup_withBox seen.distinct⟩
  have earlier : (t.withBox t.posted).held? number = s.find? number := held?_withBox.trans (seen.held number)
  rw [held, Slot.find?_post, seen.posted]
  split
  next here => rw [here, room]; rfl
  next => rw [Option.or_none]; exact seen.posted ▸ earlier

theorem claim (seen : t.Shows s) : t.claim.Shows s.claim :=
  ⟨seen.posted, congrArg (· + 1) seen.claimed, seen.held, seen.distinct⟩

/-- A message is received with its box; who finds none leaves an empty one. -/
theorem receive (seen : t.Shows s) (number : Int) : (t.receive number).1 = s.find? number ∧
    (t.receive number).2.Shows (if (s.find? number).isSome then s.discard number else s) := by
  have held : (t.withBox number).held? number = s.find? number := held?_withBox.trans (seen.held number)
  unfold Tray.receive
  dsimp only
  rw [held]
  cases found : s.find? number with
  | none =>
    refine ⟨rfl, posted_withBox.trans seen.posted, claimed_withBox.trans seen.claimed, fun other => ?_,
      nodup_withBox seen.distinct⟩
    exact held?_withBox.trans (seen.held other)
  | some message =>
    refine ⟨rfl, posted_withBox.trans seen.posted, claimed_withBox.trans seen.claimed, fun other => ?_,
      (nodup_withBox seen.distinct).sublist (List.filter_sublist.map _)⟩
    exact held?_without.trans (by rw [if_pos Option.isSome_some, Slot.find?_discard, held?_withBox, seen.held])

end Shows

end Tray

/-! The mail box. -/

namespace MailBox

variable {box : MailBox μ} {key other : MailKey} {number : Int}

theorem receiveClaimed_fst : (box.receiveClaimed key number).1 = (box.slot key).find? number := by
  unfold receiveClaimed take?
  cases (box.slot key).find? number <;> rfl

theorem slot_receiveClaimed : (box.receiveClaimed key number).2.slot other = if other = key then
    (if ((box.slot key).find? number).isSome then (box.slot key).discard number else box.slot key) else box.slot other := by
  unfold receiveClaimed take?
  cases (box.slot key).find? number with
  | some message => exact slot_update box key other _
  | none => by_cases here : other = key <;> simp [here]

theorem length_answers (box : MailBox μ) (calls : List (MailCall μ)) : (box.answers calls).length = calls.length := by
  induction calls generalizing box with
  | nil => rfl
  | cons call rest ih => exact congrArg (· + 1) (ih _)

theorem pendingTags_eq (sender receiver : Int) :
    box.pendingTags sender receiver = tagsOf (fun s => !s.parked.isEmpty) box.slots sender receiver := rfl

end MailBox

theorem PostOffice.pendingTags_eq (office : PostOffice μ) (sender receiver : Int) :
    office.pendingTags sender receiver = tagsOf Tray.isWaiting office.trays sender receiver := rfl

/-- The trays of a post office show what a mail box keeps. -/
structure PostOffice.Shows (office : PostOffice μ) (box : MailBox μ) : Prop where
  trays : ∀ key, (office.tray key).Shows (box.slot key)
  offices : (office.trays.map Prod.fst).Nodup
  slots : (box.slots.map Prod.fst).Nodup

namespace PostOffice.Shows

variable {office : PostOffice μ} {box box' : MailBox μ}

theorem empty : (PostOffice.empty : PostOffice μ).Shows MailBox.empty :=
  ⟨fun _ => .empty, List.nodup_nil, List.nodup_nil⟩

theorem put {key : MailKey} {t : Tray μ} {s : Slot μ} (seen : office.Shows box) (new : t.Shows s)
    (changed : ∀ other, box'.slot other = if other = key then s else box.slot other)
    (slots : (box'.slots.map Prod.fst).Nodup) : (office.put key t).Shows box' := by
  refine ⟨fun other => ?_, nodup_putSlot seen.offices, slots⟩
  have mine : (office.put key t).tray other = if other = key then t else office.tray other :=
    kept_putSlot ({} : Tray μ) office.trays
  rw [mine, changed]
  split
  · exact new
  · exact seen.trays other

theorem mem_pendingTags (seen : office.Shows box) {sender receiver tag : Int} :
    tag ∈ box.pendingTags sender receiver ↔ (box.slot ⟨sender, receiver, tag⟩).parked.isEmpty = false := by
  rw [MailBox.pendingTags_eq, mem_tagsOf, ← full_kept_iff {} rfl seen.slots, Bool.not_eq_true']
  rfl

theorem ascending_pendingTags (seen : office.Shows box) (sender receiver : Int) :
    (box.pendingTags sender receiver).Pairwise (· < ·) := by
  rw [MailBox.pendingTags_eq]
  exact ascending_tagsOf seen.slots

theorem pendingTags_eq (seen : office.Shows box) (sender receiver : Int) :
    office.pendingTags sender receiver = box.pendingTags sender receiver := by
  rw [MailBox.pendingTags_eq, PostOffice.pendingTags_eq]
  refine (ascending_tagsOf seen.offices).eq_of_mem_iff (ascending_tagsOf seen.slots) fun tag => ?_
  rw [mem_tagsOf, mem_tagsOf, ← full_kept_iff {} rfl seen.offices,
    ← full_kept_iff {} rfl seen.slots]
  exact Bool.eq_iff_iff.mp (seen.trays _).isWaiting_eq

theorem claim (seen : office.Shows box) (key : MailKey) :
    (office.put key (office.tray key).claim).Shows (box.claim key).2 :=
  seen.put (seen.trays key).claim (fun _ => MailBox.slot_update ..) (nodup_putSlot seen.slots)

theorem receive {key : MailKey} {t : Tray μ} {s : Slot μ} (seen : office.Shows box) (new : t.Shows s)
    (changed : ∀ other, box'.slot other = if other = key then s else box.slot other)
    (slots : (box'.slots.map Prod.fst).Nodup) (number : Int) :
    (t.receive number).1 = (box'.receiveClaimed key number).1 ∧
      (office.put key (t.receive number).2).Shows (box'.receiveClaimed key number).2 := by
  have mine : box'.slot key = s := by rw [changed, if_pos rfl]
  obtain ⟨same, later⟩ := new.receive number
  refine ⟨?_, seen.put later (fun other => ?_) ?_⟩
  · rw [same, MailBox.receiveClaimed_fst, mine]
  · rw [MailBox.slot_receiveClaimed, mine, changed]
    by_cases here : other = key <;> simp [here]
  · unfold MailBox.receiveClaimed MailBox.take?
    cases (box'.slot key).find? number with
    | some message => exact nodup_putSlot slots
    | none => exact slots

/-- Every call returns, with the answer of the mail box. -/
theorem answer (seen : office.Shows box) (room : ∀ key, (box.slot key).find? (box.slot key).posted = none)
    (call : MailCall μ) : ∃ office', office.answer? call = some ((box.answer call).1, office') ∧ office'.Shows (box.answer call).2 := by
  cases call with
  | post key message =>
    obtain ⟨t, stored, new⟩ := (seen.trays key).post (room key) message
    refine ⟨office.put key t, by rw [PostOffice.answer?, stored]; rfl, ?_⟩
    exact seen.put new (fun _ => MailBox.slot_update ..) (nodup_putSlot seen.slots)
  | claim key =>
    refine ⟨_, ?_, seen.claim key⟩
    rw [PostOffice.answer?, (seen.trays key).claimed]
    rfl
  | receiveClaimed key number =>
    have unchanged (other : MailKey) : box.slot other = if other = key then box.slot key else box.slot other := by
      by_cases here : other = key <;> simp [here]
    obtain ⟨same, later⟩ := seen.receive (seen.trays key) unchanged seen.slots number
    exact ⟨_, congrArg (fun found => some (MailAnswer.message found, _)) same, later⟩
  | receive key =>
    obtain ⟨same, later⟩ := seen.receive (seen.trays key).claim (fun _ => MailBox.slot_update ..)
      (nodup_putSlot seen.slots) (box.slot key).claimed
    refine ⟨_, ?_, later⟩
    rw [PostOffice.answer?, (seen.trays key).claimed]
    exact congrArg (fun found => some (MailAnswer.message found, _)) same
  | pending sender receiver => exact ⟨office, by rw [PostOffice.answer?, seen.pendingTags_eq]; rfl, seen⟩

end PostOffice.Shows

/-! The log. -/

namespace Event

/-- A message that was posted under a number and not delivered. -/
def Waits (log : List (Event μ)) (key : MailKey) (number : Int) (message : μ) : Prop :=
  ∃ n : Nat, number = n ∧ (posts key log)[n]? = some message ∧ number ∉ deliveries key log

/-- Whether a receiver is given the message of a number, if it waits for someone, and else gives up. -/
def Hands (log : List (Event μ)) (key : MailKey) (number : Int) (answer : MailAnswer μ) : Prop :=
  ∃ found, answer = .message found ∧ ∀ message, found = some message ↔ Waits log key number message

end Event

namespace MailCall

/-- The answer that a call must be given after a log. A claim is numbered by the claims before it. -/
def Fits (log : List (Event μ)) : MailCall μ → MailAnswer μ → Prop
  | .post _ _, answer => answer = .done
  | .claim key, answer => answer = .number (claims key log).length
  | .receiveClaimed key number, answer => Hands log key number answer
  | .receive key, answer => Hands log key (claims key log).length answer
  | .pending sender receiver, answer => ∃ tags, answer = .tags tags ∧ tags.Pairwise (· < ·) ∧
      ∀ tag, tag ∈ tags ↔ ∃ number message, Waits log ⟨sender, receiver, tag⟩ number message

/-- The log with one call more. -/
def enter (log : List (Event μ)) : MailCall μ → MailAnswer μ → List (Event μ)
  | .post key message, _ => log ++ [.post key message]
  | .claim key, .number n => log ++ [.claim key n]
  | .receiveClaimed key number, .message m => log ++ [.receive key number m]
  | .receive key, .message m =>
    log ++ [.claim key (claims key log).length] ++ [.receive key (claims key log).length m]
  | .pending sender receiver, .tags tags => log ++ [.pending sender receiver tags]
  | _, _ => log

end MailCall

/-- The log of calls and their answers. -/
def logOf (log : List (Event μ)) : List (MailCall μ) → List (MailAnswer μ) → List (Event μ)
  | call :: calls, answer :: answers => logOf (call.enter log answer) calls answers
  | _, _ => log

namespace Records

variable {log : List (Event μ)} {box : MailBox μ}

theorem room (records : Records log box) (key : MailKey) : (box.slot key).find? (box.slot key).posted = none := by
  refine Option.eq_none_iff_forall_ne_some.mpr fun message found => ?_
  obtain ⟨n, same, posted, -⟩ := (records.find_iff key _ message).mp found
  have inside := (List.getElem?_eq_some_iff.mp posted).1
  have all := records.posted key
  omega

theorem receiveClaimed (records : Records log box) (key : MailKey) (number : Int) :
    (∀ message, (box.receiveClaimed key number).1 = some message ↔ Waits log key number message) ∧
      Records (log ++ [.receive key number (box.receiveClaimed key number).1]) (box.receiveClaimed key number).2 := by
  refine ⟨fun message => ?_, ?_⟩
  · rw [MailBox.receiveClaimed_fst]
    exact records.find_iff key number message
  · unfold MailBox.receiveClaimed
    cases taken : box.take? key number with
    | some delivery => exact records.take taken
    | none => exact records.idle (fun _ => rfl) (fun _ => rfl) (fun _ => rfl)

/-- A claim delivers nothing. -/
theorem waits_claim {key other : MailKey} {n : Nat} {number : Int} {message : μ} :
    Waits (log ++ [.claim key n]) other number message ↔ Waits log other number message := by
  simp [Waits, posted?, delivered?]

theorem waiting_iff (records : Records log box) (key : MailKey) :
    (box.slot key).parked.isEmpty = false ↔ ∃ number message, Waits log key number message := by
  simp only [Slot.parked_iff, Option.isSome_iff_exists, records.find_iff, Waits]

/-- What is logged and what is kept stay in step, and each answer is the one of the log. -/
theorem answer (records : Records log box) {office : PostOffice μ} (seen : office.Shows box) (call : MailCall μ) :
    call.Fits log (box.answer call).1 ∧ Records (call.enter log (box.answer call).1) (box.answer call).2 := by
  cases call with
  | post key message => exact ⟨rfl, records.post key message⟩
  | claim key => exact ⟨congrArg MailAnswer.number (records.claimed key), records.claim key⟩
  | receiveClaimed key number =>
    obtain ⟨handed, later⟩ := records.receiveClaimed key number
    exact ⟨⟨_, rfl, handed⟩, later⟩
  | receive key =>
    have told : (box.claim key).1 = (claims key log).length := records.claimed key
    have same : box.answer (.receive key) =
        ((box.claim key).2.receiveClaimed key (claims key log).length).map MailAnswer.message id := by
      rw [← told]
      rfl
    have claimed : Records (log ++ [.claim key (claims key log).length]) (box.claim key).2 := told ▸ records.claim key
    obtain ⟨handed, later⟩ := claimed.receiveClaimed key (claims key log).length
    rw [same]
    exact ⟨⟨_, rfl, fun message => (handed message).trans waits_claim⟩, later⟩
  | pending sender receiver =>
    refine ⟨⟨_, rfl, seen.ascending_pendingTags sender receiver, fun tag => ?_⟩, ?_⟩
    · exact seen.mem_pendingTags.trans (records.waiting_iff _)
    · exact records.idle (fun _ => rfl) (fun _ => rfl) (fun _ => rfl)

/-- The answers to calls are those of a post office, and each of them is the one of the log so far. -/
theorem answers (records : Records log box) {office : PostOffice μ} (seen : office.Shows box) (calls : List (MailCall μ)) :
    office.answers? calls = some (box.answers calls) ∧ Lawful (logOf log calls (box.answers calls)) ∧
      ∀ (k : Nat) (call : MailCall μ), calls[k]? = some call → ∃ answer, (box.answers calls)[k]? = some answer ∧
        call.Fits (logOf log (calls.take k) ((box.answers calls).take k)) answer := by
  induction calls generalizing log box office with
  | nil => exact ⟨rfl, records.lawful, nofun⟩
  | cons call rest ih =>
    obtain ⟨office', told, shown⟩ := seen.answer records.room call
    obtain ⟨fits, recorded⟩ := records.answer seen call
    obtain ⟨later, lawful, each⟩ := ih recorded shown
    refine ⟨by rw [PostOffice.answers?, told]; simp [later, MailBox.answers], lawful, fun k => ?_⟩
    cases k with
    | zero =>
      intro first same
      obtain rfl : call = first := Option.some.inj same
      exact ⟨_, rfl, fits⟩
    | succ k => exact each k

end Records

/-! One key and the others. -/

namespace MailCall

/-- The key that a call is about. -/
def key? : MailCall μ → Option MailKey
  | post key _ => some key
  | claim key => some key
  | receiveClaimed key _ => some key
  | receive key => some key
  | pending _ _ => none

variable {call : MailCall μ} {key : MailKey} {box box' : MailBox μ}

theorem slot_elsewhere (apart : call.key? ≠ some key) : (box.answer call).2.slot key = box.slot key := by
  cases call with
  | post mine | claim mine =>
    have other : key ≠ mine := fun same => apart (congrArg some same.symm)
    exact (MailBox.slot_update ..).trans (if_neg other)
  | receiveClaimed mine =>
    have other : key ≠ mine := fun same => apart (congrArg some same.symm)
    exact MailBox.slot_receiveClaimed.trans (if_neg other)
  | receive mine =>
    have other : key ≠ mine := fun same => apart (congrArg some same.symm)
    exact (MailBox.slot_receiveClaimed.trans (if_neg other)).trans ((MailBox.slot_update ..).trans (if_neg other))
  | pending => rfl

theorem receiveClaimed_same (same : box.slot key = box'.slot key) (number : Int) :
    (box.receiveClaimed key number).1 = (box'.receiveClaimed key number).1 ∧
      (box.receiveClaimed key number).2.slot key = (box'.receiveClaimed key number).2.slot key := by
  rw [MailBox.receiveClaimed_fst, MailBox.receiveClaimed_fst, MailBox.slot_receiveClaimed, MailBox.slot_receiveClaimed, same]
  exact ⟨rfl, rfl⟩

/-- What a call is told and what it changes is a matter of its key only. -/
theorem answer_same (mine : call.key? = some key) (same : box.slot key = box'.slot key) :
    (box.answer call).1 = (box'.answer call).1 ∧ (box.answer call).2.slot key = (box'.answer call).2.slot key := by
  have updated (change : Slot μ → Slot μ) : (box.update key change).slot key = (box'.update key change).slot key := by
    rw [MailBox.slot_update, MailBox.slot_update, same]
  have claimed : (box.claim key).1 = (box'.claim key).1 := congrArg Slot.claimed same
  cases call with
  | post =>
    obtain rfl := Option.some.inj mine
    exact ⟨rfl, updated _⟩
  | claim =>
    obtain rfl := Option.some.inj mine
    exact ⟨congrArg MailAnswer.number claimed, updated _⟩
  | receiveClaimed _ number =>
    obtain rfl := Option.some.inj mine
    obtain ⟨told, later⟩ := receiveClaimed_same same number
    exact ⟨congrArg MailAnswer.message told, later⟩
  | receive =>
    obtain rfl := Option.some.inj mine
    obtain ⟨told, later⟩ := receiveClaimed_same (updated Slot.claim) (box.claim _).1
    exact ⟨(congrArg MailAnswer.message told).trans (by rw [claimed]; rfl), later.trans (by rw [claimed]; rfl)⟩
  | pending => cases mine

/-- The calls of one key are told what they would be told without the others. -/
theorem answers_filter (same : box'.slot key = box.slot key) (calls : List (MailCall μ)) :
    box'.answers (calls.filter fun call => call.key? = some key) =
      ((calls.zip (box.answers calls)).filter fun told => told.1.key? = some key).map Prod.snd := by
  induction calls generalizing box box' with
  | nil => rfl
  | cons call rest ih =>
    by_cases mine : call.key? = some key
    · obtain ⟨told, later⟩ := answer_same mine same
      simp [MailBox.answers, mine, told, ih later]
    · simp [MailBox.answers, mine, ih (same.trans (slot_elsewhere mine).symm)]

end MailCall

/-- Calls in any order and on any keys are told what the numbered logs of the keys say. A claim is told how many there were
before it. A receiver is given the message of its number if it was posted and not delivered before, and else gives up; no
message is delivered twice. The tags asked for are those of the messages that wait, in ascending order. The calls of a key
are told the same without the others. All this is so for messages that change hands in boxes, where no sender ever waits. -/
theorem calls_follow_logs (calls : List (MailCall μ)) :
    PostOffice.empty.answers? calls = some (MailBox.empty.answers calls) ∧
      (MailBox.empty.answers calls).length = calls.length ∧
      Lawful (logOf [] calls (MailBox.empty.answers calls)) ∧
      (∀ (k : Nat) (call : MailCall μ), calls[k]? = some call → ∃ answer, (MailBox.empty.answers calls)[k]? = some answer ∧
        call.Fits (logOf [] (calls.take k) ((MailBox.empty.answers calls).take k)) answer) ∧
      ∀ key, MailBox.empty.answers (calls.filter fun call => call.key? = some key) =
        ((calls.zip (MailBox.empty.answers calls)).filter fun told => told.1.key? = some key).map Prod.snd := by
  obtain ⟨boxed, lawful, each⟩ := Records.initial.answers PostOffice.Shows.empty calls
  exact ⟨boxed, MailBox.length_answers _ calls, lawful, each, fun key => MailCall.answers_filter rfl calls⟩

end HaloMesh.Transport
