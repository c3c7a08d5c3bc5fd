import HaloMesh.Proofs.CallSequence
import HaloMesh.Proofs.CommittedGuards
import HaloMesh.Proofs.Communication

/-! The call in which a message was sent. A rank claims the messages of a key in the order of its calls, and the
rank across posts them in the order of its own, so the two calls of a message are equally many requests on this
key away from the start. In x every call makes its requests. In y only the calls whose x phase has succeeded do
so, and then the calls of the two ranks can come apart. -/

namespace HaloMesh
open Transport Program

variable {α : Type}

/-- How many of the calls before call `k` have sent guard rows. -/
def rowCalls (calls : List (Call α)) (k : Nat) : Nat := (calls.take k).countP fun c => sendsRows c.events

section Counting

variable {calls : List (Call α)} {key : MailKey} {counts : Call α → Bool}

private theorem events_split {k : Nat} {c : Call α} (found : calls[k]? = some c) : calls.flatMap Call.events =
    (calls.take k).flatMap Call.events ++ (c.events ++ (calls.drop (k + 1)).flatMap Call.events) := by
  have inside := List.getElem?_eq_some_iff.mp found
  rw [← List.flatMap_cons, ← List.flatMap_append, ← inside.2, List.cons_getElem_drop_succ, List.take_append_drop]

theorem length_claims (each : ∀ c ∈ calls, (Event.claims key c.events).length = if counts c then 1 else 0) :
    (Event.claims key (calls.flatMap Call.events)).length = calls.countP counts := by
  induction calls with
  | nil => rfl
  | cons c rest ih =>
    rw [List.flatMap_cons, Event.claims_append, List.length_append, each c List.mem_cons_self,
      ih fun other member => each other (List.mem_cons_of_mem _ member), List.countP_cons, Nat.add_comm]

/-- The number that a call claims is the count of the calls before it that have claimed on the same key. -/
theorem claim_number (numbered : Event.claims key (calls.flatMap Call.events) =
      List.range (Event.claims key (calls.flatMap Call.events)).length)
    {k number : Nat} {c : Call α} (found : calls[k]? = some c) (claimed : .claim key number ∈ c.events)
    (once : (Event.claims key c.events).length ≤ 1)
    (earlier : ∀ c ∈ calls.take k, (Event.claims key c.events).length = if counts c then 1 else 0) :
    number = (calls.take k).countP counts := by
  have single : Event.claims key c.events = [number] := by
    have member := Event.mem_claims.mpr claimed
    obtain ⟨other, same⟩ := List.length_eq_one_iff.mp (Nat.le_antisymm once (List.length_pos_of_mem member))
    rw [same] at member ⊢
    rw [List.mem_singleton.mp member]
  have place : (Event.claims key (calls.flatMap Call.events))[(calls.take k).countP counts]? = some number := by
    rw [events_split found, Event.claims_append, Event.claims_append, single, ← length_claims earlier,
      List.getElem?_append_right (Nat.le_refl _), Nat.sub_self]
    rfl
  rw [numbered] at place
  obtain ⟨inside, same⟩ := List.getElem?_eq_some_iff.mp place
  rw [← same, List.getElem_range]

/-- The message of number `n` on a key was posted by the call before which `n` others have posted there. -/
theorem posting_call (atMost : ∀ c ∈ calls, (Event.posts key c.events).length ≤ if counts c then 1 else 0)
    (complete : ∀ k c, calls[k]? = some c → k + 1 < calls.length →
      (Event.posts key c.events).length = if counts c then 1 else 0)
    {n : Nat} {message : Array α} (found : (Event.posts key (calls.flatMap Call.events))[n]? = some message) :
    ∃ k' c', calls[k']? = some c' ∧ .post key message ∈ c'.events ∧ ∀ k,
      (k' < k ↔ n < (calls.take k).countP counts) ∧
        (k' = k ↔ (calls.take k).countP counts = n ∧ ∃ c, calls[k]? = some c ∧ counts c = true) := by
  induction calls generalizing n with
  | nil => simp [Event.posts] at found
  | cons c rest ih =>
    rw [List.flatMap_cons, Event.posts_append] at found
    have later (n : Nat) := @ih (fun other member => atMost other (List.mem_cons_of_mem _ member))
      (fun k other present more => complete (k + 1) other present (by simpa using more)) n
    have few := atMost c List.mem_cons_self
    by_cases counted : counts c = true
    · have single : (Event.posts key c.events).length = 1 := by
        cases rest with
        | nil =>
          have inside := (List.getElem?_eq_some_iff.mp found).1
          rw [if_pos counted] at few
          simp only [List.flatMap_nil, List.length_append, Event.posts, List.filterMap_nil, List.length_nil] at few inside ⊢
          omega
        | cons => simpa [counted] using complete 0 c rfl (by simp)
      obtain ⟨first, same⟩ := List.length_eq_one_iff.mp single
      rw [same] at found
      cases n with
      | zero =>
        obtain rfl : first = message := Option.some.inj found
        refine ⟨0, c, rfl, Event.mem_posts.mp (by simp [same]), fun k => ?_⟩
        cases k with
        | zero => simp [counted]
        | succ k => simp [counted]
      | succ n =>
        obtain ⟨k', c', present, posted, order⟩ := later n found
        refine ⟨k' + 1, c', present, posted, fun k => ?_⟩
        cases k with
        | zero => simp
        | succ k => simpa [counted] using order k
    · have none : Event.posts key c.events = [] := by simpa [counted] using few
      rw [none, List.nil_append] at found
      obtain ⟨k', c', present, posted, order⟩ := later n found
      refine ⟨k' + 1, c', present, posted, fun k => ?_⟩
      cases k with
      | zero => simp [counted]
      | succ k => simpa [counted] using order k

end Counting

/-- The events of the ranks are divided into the calls of their sessions. -/
def Divided [Scalar α] (callers : Nat → Caller α) (total : Nat) (ranks : Nat → Rank α) (count : Nat)
    (history : List (Nat × Event (Array α))) (calls : Nat → List (Call α)) : Prop :=
  ∀ i < count, Calls (callers i) total [] (ranks i) (calls i) ∧ ofRank i history = (calls i).flatMap Call.events

/-- Sessions on the ranks of a layout in which all groups fit the meshes. -/
structure Sessions [Scalar α] (l : Layout α) (meshes : Nat → Mesh α) (callers : Nat → Caller α) (total : Nat)
    (ranks : Nat → Rank α) (history : List (Nat × Event (Array α))) (calls : Nat → List (Call α)) : Prop where
  given : ∀ i < l.count, l.Assigns i (meshes i)
  room : ∀ i < l.count, (meshes i).HasRoom
  divided : Divided callers total ranks l.count history calls
  shaped : ∀ i < l.count, ∀ c ∈ calls i, c.Shaped (meshes i)

namespace Sessions

variable [Scalar α] {l : Layout α} {meshes : Nat → Mesh α} {callers : Nat → Caller α} {total : Nat} {ranks : Nat → Rank α}
  {history : List (Nat × Event (Array α))} {state : Situation (Array α) (List (Outcome Unit) × Rank α)}
  {calls : Nat → List (Call α)} {i j : Nat} (ready : Sessions l meshes callers total ranks history calls)
include ready

theorem asks (inside : i < l.count) {c : Call α} (member : c ∈ calls i) : Asks (meshes i) c.events :=
  (ready.divided i inside).1.asks member (ready.shaped i inside c member) (ready.given i inside) (ready.room i inside)

theorem asksAll (inside : i < l.count) {c : Call α} (member : c ∈ calls i) {result : Outcome Unit × Rank α}
    (ended : c.result = some result) : AsksAll (meshes i) c.events :=
  (ready.divided i inside).1.asksAll member (ready.shaped i inside c member) (ready.given i inside)
    (ready.room i inside) ended

theorem rank_eq (inside : i < l.count) : (meshes i).rank = i :=
  congrArg Endpoint.rank (Layout.rank_eq (ready.given i inside))

variable (past : History ⟨(List.range l.count).map fun i => session (callers i) total [] (ranks i), MailBox.empty⟩
  history state)
include past

theorem in_call {event : Event (Array α)} (member : (i, event) ∈ history) :
    i < l.count ∧ ∃ c ∈ calls i, event ∈ c.events := by
  have inside : i < l.count := by simpa using past.rank_lt member
  have own := mem_ofRank.mpr member
  rw [(ready.divided i inside).2] at own
  exact ⟨inside, List.mem_flatMap.mp own⟩

theorem posts_eq (inside : j < l.count) {key : MailKey} (sender : key.sender = j) :
    Event.posts key (allEvents history) = Event.posts key ((calls j).flatMap Call.events) := by
  rw [← (ready.divided j inside).2]
  apply posts_allEvents
  intro other message member
  obtain ⟨within, c, among, event⟩ := ready.in_call past member
  have rank := (ready.asks within among).sends key message event
  rw [sender, ready.rank_eq within] at rank
  omega

theorem claims_eq (inside : i < l.count) {key : MailKey} (receiver : key.receiver = i) :
    Event.claims key (allEvents history) = Event.claims key ((calls i).flatMap Call.events) := by
  rw [← (ready.divided i inside).2]
  apply claims_allEvents
  intro other number member
  obtain ⟨within, c, among, event⟩ := ready.in_call past member
  have rank := (ready.asks within among).claims key number event
  rw [receiver, ready.rank_eq within] at rank
  omega

/-- A message that a call has claimed and received was posted by a call of the rank across. Where both ranks
make a request on the key in the calls that `counts` names, the counts tell which call it was. -/
theorem posted_in (here : i < l.count) (there : j < l.count) {tag : Int} (counts : Call α → Bool)
    (claims : ∀ c ∈ calls i, ∀ result, c.result = some result →
      (Event.claims ⟨j, i, tag⟩ c.events).length = if counts c then 1 else 0)
    (atMost : ∀ c ∈ calls j, (Event.posts ⟨j, i, tag⟩ c.events).length ≤ if counts c then 1 else 0)
    (posts : ∀ c ∈ calls j, ∀ result, c.result = some result →
      (Event.posts ⟨j, i, tag⟩ c.events).length = if counts c then 1 else 0)
    {k number : Nat} {c : Call α} {result : Outcome Unit × Rank α} {message : Array α} (found : (calls i)[k]? = some c)
    (ended : c.result = some result) (claimed : .claim ⟨j, i, tag⟩ number ∈ c.events)
    (received : .receive ⟨j, i, tag⟩ number (some message) ∈ c.events) :
    ∃ k' c', (calls j)[k']? = some c' ∧ .post ⟨j, i, tag⟩ message ∈ c'.events ∧
      (k' < k ↔ ((calls i).take k).countP counts < ((calls j).take k).countP counts) ∧
        (k' = k ↔ ((calls j).take k).countP counts = ((calls i).take k).countP counts ∧
          ∃ c'', (calls j)[k]? = some c'' ∧ counts c'' = true) := by
  have lawful := (past.records rfl).lawful
  have numbered := lawful.numbered ⟨j, i, tag⟩
  rw [ready.claims_eq past here rfl] at numbered
  have member := List.mem_of_getElem? found
  have count : number = ((calls i).take k).countP counts := by
    refine claim_number numbered found claimed ?_ fun other earlier => ?_
    · rw [claims c member result ended]
      split <;> omega
    · -- all calls before this one have ended
      obtain ⟨k', present⟩ := List.getElem?_of_mem earlier
      rw [List.getElem?_take, Option.ite_none_right_eq_some] at present
      have inside := (List.getElem?_eq_some_iff.mp found).1
      obtain ⟨_, ended'⟩ := (ready.divided i here).1.ended_of_later present.2 (by omega)
      exact claims other (List.mem_of_getElem? present.2) _ ended'
  have event : .receive ⟨j, i, tag⟩ (number : Int) (some message) ∈ allEvents history := by
    have own : .receive ⟨j, i, tag⟩ (number : Int) (some message) ∈ ofRank i history := by
      rw [(ready.divided i here).2]
      exact List.mem_flatMap.mpr ⟨c, member, received⟩
    exact List.mem_map.mpr ⟨_, mem_ofRank.mp own, rfl⟩
  obtain ⟨n, same, place⟩ := lawful.matched _ _ _ event
  obtain rfl : number = n := by omega
  rw [ready.posts_eq past there rfl] at place
  obtain ⟨k', c', present, posted, order⟩ := posting_call atMost (fun k c found later => by
    obtain ⟨result, ended⟩ := (ready.divided j there).1.ended_of_later found later
    exact posts c (List.mem_of_getElem? found) result ended) place
  rw [← count]
  exact ⟨k', c', present, posted, order k⟩

/-- What a call has received on a side was sent by the rank across: in x in the same call, and in y in a call
with as many calls before it that have sent guard rows. -/
theorem sent_in (here : i < l.count) {side : Side} (guarded : side ∈ (meshes i).shape.xSides ++ (meshes i).shape.ySides)
    (across : (meshes i).neighbour? side = some (j : Int)) {k number : Nat} {c : Call α}
    {result : Outcome Unit × Rank α} {message : Array α} (found : (calls i)[k]? = some c)
    (ended : c.result = some result) (claimed : .claim ⟨j, i, side.opposite.tag.number⟩ number ∈ c.events)
    (received : .receive ⟨j, i, side.opposite.tag.number⟩ number (some message) ∈ c.events) :
    ∃ k' c', (calls j)[k']? = some c' ∧ .post ⟨j, i, side.opposite.tag.number⟩ message ∈ c'.events ∧
      (side ∈ (meshes i).shape.xSides → k' = k) ∧
      (side ∈ (meshes i).shape.ySides → (k' < k ↔ rowCalls (calls i) k < rowCalls (calls j) k) ∧
        (k' = k ↔ rowCalls (calls j) k = rowCalls (calls i) k ∧
          ∃ c'', (calls j)[k]? = some c'' ∧ sendsRows c''.events = true)) := by
  obtain ⟨other, there, same⟩ := Layout.neighbour_lt (ready.given i here) across
  obtain rfl : j = other := by omega
  have back := (Layout.neighbour_mutual (ready.given i here) (ready.given j there) side).mp across
  have shapes : (meshes i).shape = (meshes j).shape :=
    (Layout.shape_eq (ready.given i here)).trans (Layout.shape_eq (ready.given j there)).symm
  obtain ⟨-, -, apart⟩ := List.nodup_append.mp (meshes i).shape.nodup_sides
  have ownRank := ready.rank_eq here
  have otherRank := ready.rank_eq there
  rcases List.mem_append.mp guarded with inX | inY
  · have inX' := GridShape.opposite_xSides (shapes ▸ inX)
    obtain ⟨k', c', present, posted, before, same⟩ := ready.posted_in past here there (fun _ => true)
      (fun c member result ended => by
        simpa [ownRank] using ((ready.asksAll here member ended).columns side inX j across).2)
      (fun c member => by simpa [otherRank] using (ready.asks there member).once side.opposite i back)
      (fun c member result ended => by
        simpa [otherRank] using ((ready.asksAll there member ended).columns side.opposite inX' i back).1)
      found ended claimed received
    refine ⟨k', c', present, posted, fun _ => ?_, fun inY => absurd rfl (apart side inX side inY)⟩
    have inside := (List.getElem?_eq_some_iff.mp found).1
    have inside' := (List.getElem?_eq_some_iff.mp present).1
    simp only [List.countP_true, List.length_take] at before same
    have within : k < (calls j).length := by omega
    exact same.mpr ⟨by omega, _, List.getElem?_eq_getElem within, trivial⟩
  · have inY' := GridShape.opposite_ySides (shapes ▸ inY)
    obtain ⟨k', c', present, posted, order⟩ := ready.posted_in past here there (fun c => sendsRows c.events)
      (fun c member result ended => ownRank ▸ ((ready.asksAll here member ended).rows side inY j across).2)
      (fun c member => otherRank ▸ (ready.asks there member).rows inY' back)
      (fun c member result ended => otherRank ▸ ((ready.asksAll there member ended).rows side.opposite inY' i back).1)
      found ended claimed received
    exact ⟨k', c', present, posted, fun inX => absurd rfl (apart side inX side inY), fun _ => order⟩

end Sessions

section Theorem

variable [Scalar α] {count total : Nat} {meshes : Nat → Mesh α} {ranks : Nat → Rank α} {callers : Nat → Caller α}
  {history : List (Nat × Event (Array α))} {state : Situation (Array α) (List (Outcome Unit) × Rank α)}

/-- All ranks make calls, any of which may fail, and any wait may be given up. A call that fails stores nothing.
A call that succeeds has in the guard cells of each seam one message of the rank across. In x this message was
sent in the same call. In y it was sent in the same call if and only if as many calls before have sent guard
rows on both ranks and the rank across has sent some in this call. If more calls before have done so on the rank
across, the message is left over from an earlier call. -/
theorem communicate_pairs_calls (source : GridSource α) (options : Options α) (warnings : Nat → List String)
    (loaded : ∀ i < count, Mesh.load source options ⟨i, count⟩ = .ok (meshes i, warnings i))
    (room : ∀ i < count, (meshes i).HasRoom)
    (past : History ⟨(List.range count).map fun i => session (callers i) total [] (ranks i), MailBox.empty⟩
      history state) :
    (∃ calls, Divided callers total ranks count history calls) ∧
      ∀ calls, Divided callers total ranks count history calls → (∀ i < count, ∀ c ∈ calls i, c.Shaped (meshes i)) →
        ∀ i < count, ∀ (k : Nat) (c : Call α), (calls i)[k]? = some c →
          (∀ e r, c.result = some (.error e, r) → r = c.rank) ∧
          ∀ r, c.result = some (.ok (), r) → c.group ≠ [] →
            ∀ side ∈ (meshes i).shape.xSides ++ (meshes i).shape.ySides, ∀ j : Nat,
              (meshes i).neighbour? side = some (j : Int) →
              ∃ (number : Nat) (message : Array α) (k' : Nat) (c' : Call α),
                .receive ⟨j, i, side.opposite.tag.number⟩ number (some message) ∈ c.events ∧
                (meshes i).Committed side c.group message r.store ∧
                (calls j)[k']? = some c' ∧ .post ⟨j, i, side.opposite.tag.number⟩ message ∈ c'.events ∧
                (side ∈ (meshes i).shape.xSides → k' = k) ∧
                (side ∈ (meshes i).shape.ySides → (k' < k ↔ rowCalls (calls i) k < rowCalls (calls j) k) ∧
                  (k' = k ↔ rowCalls (calls j) k = rowCalls (calls i) k ∧
                    ∃ c'', (calls j)[k]? = some c'' ∧ sendsRows c''.events = true)) := by
  constructor
  · have parts (i : Nat) : ∃ calls, i < count → Calls (callers i) total [] (ranks i) calls ∧
        ofRank i history = calls.flatMap Call.events := by
      by_cases inside : i < count
      · obtain ⟨q, -, path⟩ := past.path i (session (callers i) total [] (ranks i)) (by simp [inside])
        obtain ⟨calls, made, events⟩ := session_calls (callers i) path
        exact ⟨calls, fun _ => ⟨made, events⟩⟩
      · exact ⟨[], fun within => absurd within inside⟩
    choose calls made using parts
    exact ⟨calls, made⟩
  · intro calls divided shaped i inside k c found
    obtain ⟨l, rfl, assigned⟩ := Layout.of_load (loaded i inside)
    have given (i : Nat) (inside : i < l.count) := assigned i inside _ _ (loaded i inside)
    have ready : Sessions l meshes callers total ranks history calls := ⟨given, room, divided, shaped⟩
    have member := List.mem_of_getElem? found
    refine ⟨fun e r ended => ?_, fun r ended some_ side guarded j across => ?_⟩
    · obtain ⟨_, _, -, -, -, ⟨_, -, same⟩ | ⟨_, -, same⟩⟩ :=
        (divided i inside).1.exchanged member (shaped i inside c member) ended
      · exact (Prod.mk.inj same).2
      · cases (Prod.mk.inj same).1
    · obtain ⟨fields, outcome, stored, -, path, ⟨_, -, same⟩ | ⟨staged, rfl, same⟩⟩ :=
        (divided i inside).1.exchanged member (shaped i inside c member) ended
      · cases (Prod.mk.inj same).1
      · obtain ⟨-, rfl⟩ := Prod.mk.inj same
        obtain ⟨number, message, claimed, received, committed⟩ :=
          Mesh.exchange_commits (given i inside) (room i inside) stored some_ path guarded across
        rw [ready.rank_eq inside] at claimed received
        obtain ⟨k', c', present, posted, order⟩ :=
          ready.sent_in past inside guarded across found ended claimed received
        exact ⟨number, message, k', c', received, committed, present, posted, order⟩

end Theorem

/-- Ranks that call once with groups of as many fields have a run in which all these calls succeed. -/
theorem Collective.single_call [Scalar α] {l : Layout α} {size : Nat} {meshes : Nat → Mesh α} {ranks : Nat → Rank α}
    {groups : Nat → List FieldRef} {before : Nat → Nat → Field α}
    (calls : Collective l.count meshes ranks groups size before) (given : ∀ i < l.count, l.Assigns i (meshes i))
    (room : ∀ i < l.count, (meshes i).HasRoom) :
    ∃ (history : List (Nat × Event (Array α))) (state : Situation (Array α) (List (Outcome Unit) × Rank α))
      (events : Nat → List (Event (Array α))) (after : Nat → Rank α),
      History ⟨(List.range l.count).map fun i => session (fun _ _ => (ranks i, groups i)) 1 [] (ranks i),
        MailBox.empty⟩ history state ∧
      Divided (fun i _ _ => (ranks i, groups i)) 1 ranks l.count history fun i =>
        [⟨ranks i, groups i, events i, some (.ok (), after i)⟩] := by
  let fields (i : Nat) := (List.range size).map (before i)
  let script (i : Nat) := Parcel.script i (Mesh.phases meshes fields i)
  let after (i : Nat) : Rank α :=
    { ranks i with store := (ranks i).store.putAllValues (groups i) (Mesh.afterY meshes (Mesh.afterX meshes fields) i) }
  have communicates (i : Nat) (inside : i < l.count) : Path ((RankM.communicate (groups i) false).run.run (ranks i))
      (script i) (.finished (.ok (), after i)) := calls.communicates given room inside
  have begins (i : Nat) (p : Program (Array α) (List (Outcome Unit) × Rank α))
      (found : ((List.range l.count).map fun i => session (fun _ _ => (ranks i, groups i)) 1 [] (ranks i))[i]? = some p) :
      Path p (script i) (.finished ([.ok ()], after i)) := by
    have inside : i < l.count := by simpa using (List.getElem?_eq_some_iff.mp found).1
    obtain rfl : session (fun _ _ => (ranks i, groups i)) 1 [] (ranks i) = p := by simpa [inside] using found
    rw [← List.append_nil (script i)]
    exact (communicates i inside).bind_finished (.here _)
  obtain ⟨history, state, past, scripted⟩ : ∃ history state, History ⟨(List.range l.count).map fun i =>
      session (fun _ _ => (ranks i, groups i)) 1 [] (ranks i), MailBox.empty⟩ history state ∧
      ∀ i < l.count, ofRank i history = script i :=
    (calls.staged given room).coordinated.agreement.ends (by simp) rfl begins
  refine ⟨history, state, script, after, past, fun i inside => ⟨.ended (communicates i inside) (.idle ..), ?_⟩⟩
  rw [scripted i inside, List.flatMap_singleton]

/-- The ranks of the single null call once, and all succeed. The guard cells then hold what the ranks across have
sent in this call. -/
theorem singleNull_pairs_calls : ∃ (meshes : Nat → Mesh Whole) (history : List (Nat × Event (Array Whole)))
    (state : Situation (Array Whole) (List (Outcome Unit) × Rank Whole)) (after : Nat → Rank Whole),
      History ⟨(List.range 8).map fun i => session (fun _ _ => (singleNullRank (meshes i) i, [⟨0⟩])) 1 []
        (singleNullRank (meshes i) i), MailBox.empty⟩ history state ∧
      ∀ i < 8, ∀ side ∈ (meshes i).shape.xSides ++ (meshes i).shape.ySides, ∀ j : Nat,
        (meshes i).neighbour? side = some (j : Int) → ∃ message, (meshes i).Committed side [⟨0⟩] message (after i).store ∧
          .post ⟨j, i, side.opposite.tag.number⟩ message ∈ ofRank j history := by
  obtain ⟨meshes, loaded, group⟩ := singleNull_calls
  obtain ⟨l, count, assigned⟩ := Layout.of_load (loaded 0 (by omega)).1
  have given (i : Nat) (inside : i < l.count) := assigned i (count ▸ inside) _ _ (loaded i (count ▸ inside)).1
  obtain ⟨history, state, events, after, past, divided⟩ :=
    (count ▸ group).single_call given fun i inside => (loaded i (count ▸ inside)).2
  rw [count] at past divided
  refine ⟨meshes, history, state, after, past, fun i inside side guarded j across => ?_⟩
  have shaped (i : Nat) (inside : i < 8) (c : Call Whole) (member : c ∈ [(⟨singleNullRank (meshes i) i, [⟨0⟩], events i,
      some (.ok (), after i)⟩ : Call Whole)]) : c.Shaped (meshes i) := by
    obtain rfl := List.mem_singleton.mp member
    refine ⟨rfl, [singleNullField i], rfl, fun f among => ?_⟩
    obtain rfl := List.mem_singleton.mp among
    exact group.shaped i inside 0 (by omega)
  obtain ⟨-, paired⟩ := communicate_pairs_calls singleNullSource Options.empty (fun _ => [])
    (fun i inside => (loaded i inside).1) (fun i inside => (loaded i inside).2) past
  obtain ⟨-, succeeded⟩ := paired _ divided shaped i inside 0 _ rfl
  obtain ⟨number, message, k, c, -, committed, found, posted, -⟩ :=
    succeeded (after i) rfl (by simp) side guarded j across
  obtain ⟨other, within, same⟩ := Layout.neighbour_lt (given i (count ▸ inside)) across
  obtain rfl : j = other := by omega
  refine ⟨message, committed, ?_⟩
  rw [(divided j (count ▸ within)).2]
  exact List.mem_flatMap.mpr ⟨c, List.mem_of_getElem? found, posted⟩

end HaloMesh
