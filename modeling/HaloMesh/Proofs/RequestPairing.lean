import HaloMesh.Proofs.ExchangeRequests
import HaloMesh.Proofs.MailHistory

/-! Which message a receive gets. The ranks of a world send, receive and wait as they like, and go on as they like with
what a wait tells them. The receives of one key are numbered in the order in which they were made, and so are its sends;
a receive gets the message of its own number or none, whatever becomes of the others. -/

namespace HaloMesh.Transport
open Program

variable {α : Type}

/-- What a rank does with its endpoint, one call after the other. Requests go by their number among those that the rank
has made. -/
inductive Conduct (α : Type) where
  | stop
  | send (destination tag : Int) (values : Array α) (next : Conduct α)
  | receive (source tag : Int) (buffer : Array α) (next : Conduct α)
  | wait (request : Nat) (next : Array α → Option Error → Conduct α)

/-- A call that was made. A wait is listed with the buffer of its request as the wait left it. -/
inductive Call (α : Type) where
  | sent (request : Nat) (destination tag : Int) (values : Array α)
  | posted (request : Nat) (source tag : Int) (buffer : Array α)
  | waited (request : Nat) (buffer : Array α) (error : Option Error)
deriving DecidableEq

/-- Makes the calls and lists them. A request that was never made is passed over. -/
def Conduct.run (e : Endpoint) : Conduct α → List (Request α) → List (Call α) → Program (Array α) (List (Call α))
  | stop, _, log => return log
  | send destination tag values next, requests, log => do
    let r ← e.send destination tag values
    run e next (requests ++ [r]) (log ++ [.sent requests.length destination tag values])
  | receive source tag buffer next, requests, log => do
    let r ← e.receive source tag buffer
    run e next (requests ++ [r]) (log ++ [.posted requests.length source tag buffer])
  | wait n next, requests, log =>
    match requests[n]? with
    | none => run e (next #[] none) requests log
    | some r => do
      let (r, error) ← r.wait
      run e (next r.buffer error) (requests.set n r) (log ++ [.waited n r.buffer error])

namespace Call

def sentTo? (destination tag : Int) : Call α → Option (Array α)
  | sent _ d t values => if d = destination ∧ t = tag then some values else none
  | _ => none

def postedFor? (source tag : Int) : Call α → Option (Nat × Array α)
  | posted r s t buffer => if s = source ∧ t = tag then some (r, buffer) else none
  | _ => none

/-- The contents of the messages to a rank under a tag, in sending order. -/
def sends (destination tag : Int) (log : List (Call α)) : List (Array α) := log.filterMap (sentTo? destination tag)

/-- The receives from a rank under a tag, in the order in which they were made, each with its buffer. -/
def receives (source tag : Int) (log : List (Call α)) : List (Nat × Array α) := log.filterMap (postedFor? source tag)

/-- The buffer of a request once a call is made. -/
def update (request : Nat) (buffer : Option (Array α)) : Call α → Option (Array α)
  | sent r _ _ _ => if r = request then some #[] else buffer
  | posted r _ _ b => if r = request then some b else buffer
  | waited r b _ => if r = request then some b else buffer

/-- The buffer of a request after a number of calls. -/
def held (request : Nat) (log : List (Call α)) : Option (Array α) := log.foldl (update request) none

/-- A wait for the request that has succeeded. -/
def succeeds (request : Nat) : Call α → Bool
  | waited r _ none => decide (r = request)
  | _ => false

@[simp] theorem sends_append (destination tag : Int) (log : List (Call α)) (call : Call α) :
    sends destination tag (log ++ [call]) = sends destination tag log ++ (sentTo? destination tag call).toList := by
  rw [sends, List.filterMap_append]
  cases found : sentTo? destination tag call <;> simp [sends, found]

@[simp] theorem receives_append (source tag : Int) (log : List (Call α)) (call : Call α) :
    receives source tag (log ++ [call]) = receives source tag log ++ (postedFor? source tag call).toList := by
  rw [receives, List.filterMap_append]
  cases found : postedFor? source tag call <;> simp [receives, found]

@[simp] theorem held_append (request : Nat) (log : List (Call α)) (call : Call α) :
    held request (log ++ [call]) = update request (held request log) call := by
  rw [held, List.foldl_append]
  rfl

end Call

/-! What the calls ask of the mail. -/

section Requests

variable {e : Endpoint} {destination source tag : Int} {values buffer : Array α} {events : List (Event (Array α))}
  {r done : Request α} {error : Option Error}

theorem Endpoint.send_outcome (path : Path (e.send destination tag values) events (.finished r)) :
    r.buffer = #[] ∧ (∀ key n, r.duty ≠ .collect key n) ∧
      events = if e.reaches destination = true then [.post ⟨e.rank, destination, tag⟩ values] else [] := by
  rw [Endpoint.send] at path
  split at path
  next known =>
    rw [if_pos known]
    obtain ⟨first, second, _, rfl, posts, path⟩ := path.of_bind_finished
    obtain ⟨rfl, rfl⟩ := path.finished_eq
    cases posts with
    | post rest =>
      obtain ⟨rfl, -⟩ := rest.finished_eq
      exact ⟨rfl, by simp, rfl⟩
  next unknown =>
    rw [if_neg unknown]
    obtain ⟨rfl, rfl⟩ := path.finished_eq
    exact ⟨rfl, by simp, rfl⟩

/-- A receive is bound to its message when it is made. -/
theorem Endpoint.receive_outcome (path : Path (e.receive source tag buffer) events (.finished r)) :
    r.buffer = buffer ∧ (e.reaches source = true ∧
        (∃ n, r.duty = .collect ⟨source, e.rank, tag⟩ n ∧ events = [.claim ⟨source, e.rank, tag⟩ n]) ∨
      e.reaches source = false ∧ (∃ problem, r.duty = .failed problem) ∧ events = []) := by
  rw [Endpoint.receive] at path
  split at path
  next known =>
    obtain ⟨first, second, n, rfl, claims, path⟩ := path.of_bind_finished
    obtain ⟨rfl, rfl⟩ := path.finished_eq
    cases claims with
    | claim number rest =>
      obtain ⟨rfl, rfl⟩ := rest.finished_eq
      exact ⟨rfl, .inl ⟨known, number, rfl, rfl⟩⟩
  next unknown =>
    obtain ⟨rfl, rfl⟩ := path.finished_eq
    exact ⟨rfl, .inr ⟨Bool.eq_false_iff.mpr unknown, ⟨_, rfl⟩, rfl⟩⟩

/-- A wait that succeeds is the first one and brings the message that its request is for. A wait that fails leaves the
buffer alone. -/
theorem Request.wait_outcome (path : Path r.wait events (.finished (done, error))) :
    done.duty = r.duty ∧ done.consumed = true ∧ (error ≠ none → done.buffer = r.buffer) ∧
      (error = none → r.consumed = false ∧ (∀ problem, r.duty ≠ .failed problem) ∧
        ∀ key (n : Nat), r.duty = .collect key n → .receive key n (some done.buffer) ∈ events) := by
  rw [Request.wait] at path
  split at path
  next spent =>
    obtain ⟨rfl, same⟩ := path.finished_eq
    obtain ⟨rfl, rfl⟩ := Prod.mk.inj same
    exact ⟨rfl, spent, by simp, by simp⟩
  next fresh =>
    have unspent := Bool.eq_false_iff.mpr fresh
    dsimp only at path
    cases duty : r.duty with
    | done =>
      rw [duty] at path
      obtain ⟨rfl, rfl⟩ := Prod.mk.inj path.finished_eq.2
      exact ⟨rfl, rfl, by simp, by simp [unspent]⟩
    | failed problem =>
      rw [duty] at path
      obtain ⟨rfl, rfl⟩ := Prod.mk.inj path.finished_eq.2
      exact ⟨rfl, rfl, by simp, by simp⟩
    | collect key number =>
      rw [duty] at path
      obtain ⟨first, second, answer, rfl, received, path⟩ := path.of_bind_finished
      cases received with
      | receive answer rest =>
        obtain ⟨rfl, rfl⟩ := rest.finished_eq
        cases answer with
        | none =>
          obtain ⟨_, _, tags, rfl, -, path⟩ := path.of_bind_finished
          obtain ⟨rfl, rfl⟩ := Prod.mk.inj path.finished_eq.2
          exact ⟨rfl, rfl, by simp, by simp⟩
        | some message =>
          dsimp only at path
          split at path
          · obtain ⟨rfl, rfl⟩ := Prod.mk.inj path.finished_eq.2
            refine ⟨rfl, rfl, by simp, fun _ => ⟨unspent, by simp, fun other n same => ?_⟩⟩
            obtain ⟨rfl, rfl⟩ := Duty.collect.inj same
            exact List.mem_cons_self
          · obtain ⟨rfl, rfl⟩ := Prod.mk.inj path.finished_eq.2
            exact ⟨rfl, rfl, by simp, by simp⟩

end Requests

/-- What a rank's calls have asked of the mail. -/
structure Asked (e : Endpoint) (requests : List (Request α)) (log : List (Call α))
    (events : List (Event (Array α))) : Prop where
  posts : ∀ destination tag, e.reaches destination = true →
    Event.posts ⟨e.rank, destination, tag⟩ events = Call.sends destination tag log
  sender : ∀ key message, .post key message ∈ events → key.sender = e.rank
  receiver : ∀ key number, .claim key number ∈ events → key.receiver = e.rank
  claims : ∀ source tag, e.reaches source = true →
    (Call.receives source tag log).map (fun made => (requests[made.1]?).map Request.duty) =
      (Event.claims ⟨source, e.rank, tag⟩ events).map fun n => some (.collect ⟨source, e.rank, tag⟩ n)
  refused : ∀ source tag made, e.reaches source = false → made ∈ Call.receives source tag log →
    ∃ problem, (requests[made.1]?).map Request.duty = some (.failed problem)

/-- What has become of a rank's requests. -/
structure Kept (requests : List (Request α)) (log : List (Call α)) (events : List (Event (Array α))) : Prop where
  waits : ∀ r contents error, .waited r contents error ∈ log → r < requests.length
  held : ∀ r request, requests[r]? = some request → Call.held r log = some request.buffer
  brought : ∀ r request contents, requests[r]? = some request → .waited r contents none ∈ log →
    request.consumed = true ∧ (∀ problem, request.duty ≠ .failed problem) ∧
      ∀ key (n : Nat), request.duty = .collect key n → .receive key n (some contents) ∈ events
  once : ∀ r, log.countP (Call.succeeds r) ≤ 1
  untouched : ∀ before r contents error after, log = before ++ .waited r contents (some error) :: after →
    Call.held r before = some contents

section Steps

variable {e : Endpoint} {requests : List (Request α)} {log : List (Call α)} {events more : List (Event (Array α))}
  {r done : Request α} {error : Option Error} {n : Nat}

theorem duty_set (found : requests[n]? = some r) (same : done.duty = r.duty) (i : Nat) :
    ((requests.set n done)[i]?).map Request.duty = (requests[i]?).map Request.duty := by
  rw [List.getElem?_set]
  split
  next here =>
    subst here
    rw [found, if_pos (List.getElem?_eq_some_iff.mp found).1, Option.map_some, Option.map_some, same]
  next => rfl

/-- A failed wait was for the last call, or for one before it. -/
theorem split_last {call other : Call α} {before after : List (Call α)} (same : log ++ [call] = before ++ other :: after) :
    (log = before ∧ call = other) ∨ ∃ rest, log = before ++ other :: rest := by
  rcases List.eq_nil_or_concat after with rfl | ⟨rest, last, rfl⟩
  · exact .inl (by simpa using same)
  · rw [List.concat_eq_append, ← List.cons_append, ← List.append_assoc] at same
    exact .inr ⟨rest, (List.append_inj' same rfl).1⟩

namespace Kept

theorem initial : Kept ([] : List (Request α)) [] [] where
  waits _ _ _ impossible := by cases impossible
  held _ _ impossible := by cases impossible
  brought _ _ _ impossible := by cases impossible
  once _ := Nat.zero_le _
  untouched before _ _ _ _ impossible := by cases before <;> cases impossible

/-- A new request comes last and starts with its own buffer. -/
theorem made (kept : Kept requests log events) {call : Call α}
    (opens : ∀ i buffer, Call.update i buffer call = if requests.length = i then some r.buffer else buffer)
    (silent : ∀ i contents error, call ≠ .waited i contents error) :
    Kept (requests ++ [r]) (log ++ [call]) (events ++ more) := by
  have earlier {i contents error} (member : .waited i contents error ∈ log ++ [call]) :
      .waited i contents error ∈ log := by
    rcases List.mem_append.mp member with before | last
    · exact before
    · exact absurd (List.mem_singleton.mp last).symm (silent i contents error)
  refine ⟨fun i contents error member => ?_, fun i request found => ?_, fun i request contents found member => ?_,
    fun i => ?_, fun before i contents error after same => ?_⟩
  · rw [List.length_append]
    exact Nat.lt_add_right _ (kept.waits i contents error (earlier member))
  · rw [Call.held_append, opens]
    split
    next here =>
      rw [← here, List.getElem?_concat_length] at found
      rw [Option.some.inj found]
    next other =>
      have inside := (List.getElem?_eq_some_iff.mp found).1
      rw [List.length_append, List.length_singleton] at inside
      rw [List.getElem?_append_left (by omega)] at found
      exact kept.held i request found
  · have member := earlier member
    rw [List.getElem?_append_left (kept.waits i contents none member)] at found
    obtain ⟨consumed, duty, brings⟩ := kept.brought i request contents found member
    exact ⟨consumed, duty, fun key n same => List.mem_append_left _ (brings key n same)⟩
  · have fails : Call.succeeds i call = false := by
      cases call with
      | sent | posted => rfl
      | waited j contents error => exact absurd rfl (silent j contents error)
    rw [List.countP_append, List.countP_singleton, fails]
    exact kept.once i
  · rcases split_last same with ⟨-, wait⟩ | ⟨rest, same⟩
    · exact absurd wait (silent i contents _)
    · exact kept.untouched before i contents error rest same

theorem waited (kept : Kept requests log events) (found : requests[n]? = some r)
    (path : Path r.wait more (.finished (done, error))) :
    Kept (requests.set n done) (log ++ [.waited n done.buffer error]) (events ++ more) := by
  obtain ⟨duty, consumed, fails, succeeds⟩ := Request.wait_outcome path
  have inside := (List.getElem?_eq_some_iff.mp found).1
  have unsaid (success : error = none) (contents : Array α) : .waited n contents none ∉ log := fun member => by
    have before := (kept.brought n r contents found member).1
    rw [(succeeds success).1] at before
    cases before
  refine ⟨fun i contents failure member => ?_, fun i request known => ?_, fun i request contents known member => ?_,
    fun i => ?_, fun before i contents failure after same => ?_⟩
  · rw [List.length_set]
    rcases List.mem_append.mp member with before | last
    · exact kept.waits i contents failure before
    · cases List.mem_singleton.mp last
      exact inside
  · rw [Call.held_append, Call.update]
    by_cases here : n = i
    · subst here
      rw [List.getElem?_set_self inside] at known
      rw [if_pos rfl, Option.some.inj known]
    · rw [List.getElem?_set_ne here] at known
      rw [if_neg here, kept.held i request known]
  · by_cases here : n = i
    · subst here
      rw [List.getElem?_set_self inside] at known
      obtain rfl := Option.some.inj known
      rw [duty]
      rcases List.mem_append.mp member with before | last
      · obtain ⟨-, whole, brings⟩ := kept.brought n r contents found before
        exact ⟨consumed, whole, fun key k same => List.mem_append_left _ (brings key k same)⟩
      · cases List.mem_singleton.mp last
        obtain ⟨-, whole, brings⟩ := succeeds rfl
        exact ⟨consumed, whole, fun key k same => List.mem_append_right _ (brings key k same)⟩
    · rw [List.getElem?_set_ne here] at known
      have before : .waited i contents none ∈ log := by
        rcases List.mem_append.mp member with before | last
        · exact before
        · cases List.mem_singleton.mp last
          exact absurd rfl here
      obtain ⟨consumed, whole, brings⟩ := kept.brought i request contents known before
      exact ⟨consumed, whole, fun key k same => List.mem_append_left _ (brings key k same)⟩
  · rw [List.countP_append, List.countP_singleton]
    by_cases success : Call.succeeds i (.waited n done.buffer error) = true
    · have first : log.countP (Call.succeeds i) = 0 := by
        refine List.countP_eq_zero.mpr fun call member other => ?_
        cases error with
        | some failure => cases success
        | none =>
          obtain rfl : n = i := of_decide_eq_true success
          cases call with
          | sent | posted => cases other
          | waited j contents failure =>
            cases failure with
            | some failure => cases other
            | none =>
              obtain rfl : j = n := of_decide_eq_true other
              exact unsaid rfl contents member
      rw [first]
      split <;> omega
    · rw [if_neg success]
      exact kept.once i
  · rcases split_last same with ⟨rfl, wait⟩ | ⟨rest, same⟩
    · cases wait
      rw [fails (by simp)]
      exact kept.held n r found
    · exact kept.untouched before i contents failure rest same

end Kept

namespace Asked

theorem initial : Asked e ([] : List (Request α)) [] [] where
  posts _ _ _ := rfl
  sender _ _ impossible := by cases impossible
  receiver _ _ impossible := by cases impossible
  claims _ _ _ := rfl
  refused _ _ _ _ impossible := by cases impossible

theorem bound (asked : Asked e requests log events) {source tag : Int} {made : Nat × Array α}
    (member : made ∈ Call.receives source tag log) : made.1 < requests.length := by
  have known : ∃ duty, (requests[made.1]?).map Request.duty = some duty := by
    cases reached : e.reaches source with
    | false =>
      obtain ⟨problem, found⟩ := asked.refused source tag made reached member
      exact ⟨_, found⟩
    | true =>
      have among := List.mem_map_of_mem (f := fun made => (requests[made.1]?).map Request.duty) member
      rw [asked.claims source tag reached] at among
      obtain ⟨n, -, same⟩ := List.mem_map.mp among
      exact ⟨_, same.symm⟩
  obtain ⟨duty, found⟩ := known
  obtain ⟨request, found, -⟩ := Option.map_eq_some_iff.mp found
  exact (List.getElem?_eq_some_iff.mp found).1

/-- The earlier receives are for what they were for when another request is made. -/
theorem duties (asked : Asked e requests log events) {source tag : Int} {made : Nat × Array α}
    (member : made ∈ Call.receives source tag log) :
    ((requests ++ [r])[made.1]?).map Request.duty = (requests[made.1]?).map Request.duty := by
  rw [List.getElem?_append_left (asked.bound member)]

theorem sent {destination tag : Int} {values : Array α} (asked : Asked e requests log events)
    (path : Path (e.send destination tag values) more (.finished r)) :
    Asked e (requests ++ [r]) (log ++ [.sent requests.length destination tag values]) (events ++ more) := by
  obtain ⟨-, -, same⟩ := Endpoint.send_outcome path
  have silent (key : MailKey) : Event.claims key more = [] := by
    rw [same]
    split <;> rfl
  have receives (s t : Int) : Call.receives s t (log ++ [.sent requests.length destination tag values]) =
      Call.receives s t log := (Call.receives_append ..).trans (List.append_nil _)
  refine ⟨fun d t reached => ?_, fun key message member => ?_, fun key number member => ?_, fun s t reached => ?_,
    fun s t made unreached member => ?_⟩
  · rw [Event.posts_append, asked.posts d t reached, Call.sends_append, same, Call.sentTo?]
    by_cases own : destination = d ∧ tag = t
    · obtain ⟨rfl, rfl⟩ := own
      simp [reached, Event.posts, Event.posted?]
    · rw [if_neg own]
      split
      · simpa [Event.posts, Event.posted?] using own
      · rfl
  · rcases List.mem_append.mp member with before | last
    · exact asked.sender key message before
    · rw [same] at last
      split at last
      · cases List.mem_singleton.mp last
        rfl
      · cases last
  · rw [← Event.mem_claims, Event.claims_append, silent, List.append_nil, Event.mem_claims] at member
    exact asked.receiver key number member
  · rw [Event.claims_append, silent, List.append_nil, ← asked.claims s t reached, receives]
    exact List.map_congr_left fun made member => asked.duties member
  · rw [receives] at member
    rw [asked.duties member]
    exact asked.refused s t made unreached member

theorem posted {source tag : Int} {buffer : Array α} (asked : Asked e requests log events)
    (path : Path (e.receive source tag buffer) more (.finished r)) :
    Asked e (requests ++ [r]) (log ++ [.posted requests.length source tag buffer]) (events ++ more) := by
  obtain ⟨-, outcome⟩ := Endpoint.receive_outcome path
  have silent (key : MailKey) : Event.posts key more = [] := by
    rcases outcome with ⟨-, n, -, rfl⟩ | ⟨-, -, rfl⟩ <;> rfl
  refine ⟨fun d t reached => ?_, fun key message member => ?_, fun key number member => ?_, fun s t reached => ?_,
    fun s t made unreached member => ?_⟩
  · rw [Event.posts_append, silent, List.append_nil, asked.posts d t reached]
    exact ((Call.sends_append ..).trans (List.append_nil _)).symm
  · rw [← Event.mem_posts, Event.posts_append, silent, List.append_nil, Event.mem_posts] at member
    exact asked.sender key message member
  · rcases List.mem_append.mp member with before | last
    · exact asked.receiver key number before
    · rcases outcome with ⟨-, n, -, rfl⟩ | ⟨-, -, rfl⟩
      · cases List.mem_singleton.mp last
        rfl
      · cases last
  · rw [Call.receives_append, Event.claims_append, List.map_append, List.map_append, ← asked.claims s t reached]
    congr 1
    · exact List.map_congr_left fun made member => asked.duties member
    · rw [Call.postedFor?]
      by_cases own : source = s ∧ tag = t
      · obtain ⟨rfl, rfl⟩ := own
        rcases outcome with ⟨-, n, duty, rfl⟩ | ⟨unreached, -, -⟩
        · simp [Event.claims, Event.claimed?, duty]
        · rw [reached] at unreached
          cases unreached
      · rw [if_neg own]
        rcases outcome with ⟨-, n, -, rfl⟩ | ⟨-, -, rfl⟩
        · symm
          simpa [Event.claims, Event.claimed?] using own
        · rfl
  · rw [Call.receives_append] at member
    rcases List.mem_append.mp member with before | last
    · rw [asked.duties before]
      exact asked.refused s t made unreached before
    · rw [Option.mem_toList, Call.postedFor?, Option.ite_none_right_eq_some] at last
      obtain ⟨⟨rfl, rfl⟩, same⟩ := last
      cases same
      rcases outcome with ⟨reached, -⟩ | ⟨-, ⟨problem, duty⟩, -⟩
      · rw [reached] at unreached
        cases unreached
      · exact ⟨problem, by simp [duty]⟩

theorem waited (asked : Asked e requests log events) (found : requests[n]? = some r)
    (path : Path r.wait more (.finished (done, error))) :
    Asked e (requests.set n done) (log ++ [.waited n done.buffer error]) (events ++ more) := by
  have duty := (Request.wait_outcome path).1
  have posts (key : MailKey) : Event.posts key more = [] := Event.posts_of_waits (wait_waits path) key
  have claims (key : MailKey) : Event.claims key more = [] := Event.claims_of_waits (wait_waits path) key
  have receives (s t : Int) : Call.receives s t (log ++ [.waited n done.buffer error]) = Call.receives s t log :=
    (Call.receives_append ..).trans (List.append_nil _)
  refine ⟨fun d t reached => ?_, fun key message member => ?_, fun key number member => ?_, fun s t reached => ?_,
    fun s t made unreached member => ?_⟩
  · rw [Event.posts_append, posts, List.append_nil, asked.posts d t reached]
    exact ((Call.sends_append ..).trans (List.append_nil _)).symm
  · rw [← Event.mem_posts, Event.posts_append, posts, List.append_nil, Event.mem_posts] at member
    exact asked.sender key message member
  · rw [← Event.mem_claims, Event.claims_append, claims, List.append_nil, Event.mem_claims] at member
    exact asked.receiver key number member
  · rw [Event.claims_append, claims, List.append_nil, ← asked.claims s t reached, receives]
    exact List.map_congr_left fun made _ => duty_set found duty made.1
  · rw [receives] at member
    rw [duty_set found duty]
    exact asked.refused s t made unreached member

end Asked

/-- The calls of a rank ask of the mail what they list, and keep their requests in order. -/
theorem Conduct.run_accounts {conduct : Conduct α} {final : List (Call α)} {before : List (Event (Array α))}
    (asked : Asked e requests log before) (kept : Kept requests log before)
    (path : Path (conduct.run e requests log) events (.finished final)) :
    ∃ requests, Asked e requests final (before ++ events) ∧ Kept requests final (before ++ events) := by
  induction conduct generalizing requests log before events with
  | stop =>
    obtain ⟨rfl, rfl⟩ := path.finished_eq
    rw [List.append_nil]
    exact ⟨requests, asked, kept⟩
  | send destination tag values next ih =>
    obtain ⟨first, second, r, rfl, sends, path⟩ := path.of_bind_finished
    rw [← List.append_assoc]
    have empty := (Endpoint.send_outcome sends).1
    exact ih (asked.sent sends) (kept.made (by simp [Call.update, empty]) (by simp)) path
  | receive source tag buffer next ih =>
    obtain ⟨first, second, r, rfl, posts, path⟩ := path.of_bind_finished
    rw [← List.append_assoc]
    have own := (Endpoint.receive_outcome posts).1
    exact ih (asked.posted posts) (kept.made (by simp [Call.update, own]) (by simp)) path
  | wait n next ih =>
    rw [run] at path
    split at path
    · exact ih _ _ asked kept path
    next r found =>
      obtain ⟨first, second, ⟨done, error⟩, rfl, waits, path⟩ := path.of_bind_finished
      rw [← List.append_assoc]
      exact ih _ _ (asked.waited found waits) (kept.waited found waits) path

end Steps

/-- The ranks of a world, each before its first call. -/
def Conduct.world (count : Nat) (conduct : Nat → Conduct α) : Situation (Array α) (List (Call α)) :=
  ⟨(List.range count).map fun i => (conduct i).run ⟨i, count⟩ [] [], MailBox.empty⟩

/-- The `k`-th receive from a rank under a tag was waited for with success and has brought these contents. -/
def Call.Brings (log : List (Call α)) (source tag : Int) (k : Nat) (contents : Array α) : Prop :=
  ∃ r buffer, (receives source tag log)[k]? = some (r, buffer) ∧ .waited r contents none ∈ log

section World

variable {count : Nat} {conduct : Nat → Conduct α} {history : List (Nat × Event (Array α))}
  {state : Situation (Array α) (List (Call α))} {rank : Nat} {log : List (Call α)}

theorem Conduct.world_rank (inside : rank < count) :
    (world count conduct).ranks[rank]? = some ((conduct rank).run ⟨rank, count⟩ [] []) := by
  simp [world, inside]

theorem History.lt_of_rank (past : History (Conduct.world count conduct) history state) {p : Program (Array α) (List (Call α))}
    (found : state.ranks[rank]? = some p) : rank < count := by
  have inside := (List.getElem?_eq_some_iff.mp found).1
  rwa [past.length_ranks, Conduct.world, List.length_map, List.length_range] at inside

theorem History.accounts (past : History (Conduct.world count conduct) history state)
    (stopped : state.ranks[rank]? = some (.finished log)) :
    ∃ requests, Asked ⟨rank, count⟩ requests log (ofRank rank history) ∧ Kept requests log (ofRank rank history) := by
  obtain ⟨q, current, path⟩ := past.path rank _ (Conduct.world_rank (past.lt_of_rank stopped))
  cases Option.some.inj (stopped.symm.trans current)
  exact Conduct.run_accounts Asked.initial Kept.initial path

/-- Every rank posts in its own name and claims for itself, also before it has come to its end. -/
theorem History.owns (past : History (Conduct.world count conduct) history state) :
    (∀ key message, (rank, .post key message) ∈ history → key.sender = (rank : Int)) ∧
      ∀ key number, (rank, .claim key number) ∈ history → key.receiver = (rank : Int) := by
  by_cases inside : rank < count
  · obtain ⟨q, -, path⟩ := past.path rank _ (Conduct.world_rank inside)
    obtain ⟨rest, final, ends⟩ := Path.completes q
    obtain ⟨requests, asked, -⟩ := Conduct.run_accounts Asked.initial Kept.initial (path.trans ends)
    refine ⟨fun key message member => asked.sender key message ?_, fun key number member => asked.receiver key number ?_⟩
    all_goals exact List.mem_append_left rest (mem_ofRank.mpr member)
  · have outside (event : Event (Array α)) : (rank, event) ∉ history := fun member => by
      have := past.rank_lt member
      rw [Conduct.world, List.length_map, List.length_range] at this
      exact inside this
    exact ⟨fun _ _ member => absurd member (outside _), fun _ _ member => absurd member (outside _)⟩

/-- What the `k`-th receive brings was delivered as the `k`-th message of its key. -/
theorem History.brings_delivered (past : History (Conduct.world count conduct) history state)
    (stopped : state.ranks[rank]? = some (.finished log)) {source tag : Int} {k : Nat} {contents : Array α}
    (brings : Call.Brings log source tag k contents) :
    ∃ sender : Nat, source = sender ∧ sender < count ∧
      (rank, .receive ⟨source, rank, tag⟩ k (some contents)) ∈ history := by
  obtain ⟨requests, asked, kept⟩ := past.accounts stopped
  obtain ⟨r, buffer, made, waited⟩ := brings
  have among := List.mem_of_getElem? made
  have known := List.getElem?_eq_getElem (kept.waits r contents none waited)
  obtain ⟨-, whole, received⟩ := kept.brought r _ contents known waited
  cases reached : Endpoint.reaches ⟨rank, count⟩ source with
  | false =>
    obtain ⟨problem, duty⟩ := asked.refused source tag _ reached among
    rw [known, Option.map_some, Option.some.injEq] at duty
    exact absurd duty (whole problem)
  | true =>
    have numbered := congrArg (·[k]?) (asked.claims source tag reached)
    simp only [List.getElem?_map, made, known, Option.map_some] at numbered
    obtain ⟨n, claimed, duty⟩ := Option.map_eq_some_iff.mp numbered.symm
    have bound := (past.records rfl).lawful.numbered ⟨source, rank, tag⟩
    have own (other number : Nat) (member : (other, .claim ⟨source, rank, tag⟩ number) ∈ history) : other = rank :=
      Int.natCast_inj.mp ((past.owns.2 _ number member).symm)
    rw [claims_allEvents own] at bound
    -- claims are numbered as they come, so the claim of the `k`-th receive has the number `k`
    rw [bound] at claimed
    obtain ⟨_, same⟩ := List.getElem?_eq_some_iff.mp claimed
    rw [List.getElem_range] at same
    simp only [Endpoint.reaches, Bool.and_eq_true, decide_eq_true_eq] at reached
    refine ⟨source.toNat, by omega, by omega, ?_⟩
    rw [← mem_ofRank, same]
    exact received _ n (Option.some.inj duty).symm

/-- The `n`-th message of a key is what the `n`-th send of its sender held. -/
theorem History.posts_sent (past : History (Conduct.world count conduct) history state)
    (stopped : state.ranks[rank]? = some (.finished log)) {receiver : Nat} (inside : receiver < count) (tag : Int) :
    Event.posts ⟨rank, receiver, tag⟩ (allEvents history) = Call.sends receiver tag log := by
  obtain ⟨requests, asked, -⟩ := past.accounts stopped
  have own (other : Nat) (message) (member : (other, .post ⟨rank, receiver, tag⟩ message) ∈ history) : other = rank :=
    Int.natCast_inj.mp ((past.owns.1 _ message member).symm)
  rw [posts_allEvents own]
  exact asked.posts receiver tag (by simp [Endpoint.reaches, inside])

theorem History.brings_sent (past : History (Conduct.world count conduct) history state)
    (stopped : state.ranks[rank]? = some (.finished log)) {sender : Nat} {tag : Int} {k : Nat} {contents : Array α}
    (brings : Call.Brings log sender tag k contents) {sent : List (Call α)}
    (ended : state.ranks[sender]? = some (.finished sent)) : (Call.sends rank tag sent)[k]? = some contents := by
  obtain ⟨_, -, -, delivered⟩ := past.brings_delivered stopped brings
  obtain ⟨n, number, posted⟩ := (past.records rfl).lawful.matched _ _ _ (List.mem_map_of_mem (f := Prod.snd) delivered)
  rw [Int.natCast_inj.mp number, ← past.posts_sent ended (past.lt_of_rank stopped)]
  exact posted

end World

/-- A world's ranks call as they like, and any wait may be given up at any time. A receive that is waited for with
success has the contents of the send with the same number among those of its key, so neither the waits of the others nor
the calls on other keys have a say in it. No message is delivered twice, no request succeeds twice, and a wait that fails
leaves the buffer as it was. The calls are those of ranks that have stopped; as a rank may stop after any of its calls,
this is what has been called up to any time. -/
theorem receives_pair_with_sends {count : Nat} {conduct : Nat → Conduct α} {history : List (Nat × Event (Array α))}
    {state : Situation (Array α) (List (Call α))} (past : History (Conduct.world count conduct) history state)
    {receiver : Nat} {got : List (Call α)} (stopped : state.ranks[receiver]? = some (.finished got)) :
    (∀ source tag k contents, Call.Brings got source tag k contents → ∃ sender : Nat, source = sender ∧ sender < count ∧
      (receiver, .receive ⟨sender, receiver, tag⟩ k (some contents)) ∈ history ∧
      ∀ sent, state.ranks[sender]? = some (.finished sent) → (Call.sends receiver tag sent)[k]? = some contents) ∧
    (∀ key, (Event.deliveries key (allEvents history)).Nodup) ∧
    (∀ r, got.countP (Call.succeeds r) ≤ 1) ∧
    (∀ before r contents error after, got = before ++ .waited r contents (some error) :: after →
      Call.held r before = some contents) ∧
    ∀ {count' : Nat} {conduct' : Nat → Conduct α} {history' : List (Nat × Event (Array α))}
      {state' : Situation (Array α) (List (Call α))}, History (Conduct.world count' conduct') history' state' →
      ∀ got', state'.ranks[receiver]? = some (.finished got') → ∀ (sender : Nat) tag k sent sent',
        state.ranks[sender]? = some (.finished sent) → state'.ranks[sender]? = some (.finished sent') →
        (Call.sends receiver tag sent)[k]? = (Call.sends receiver tag sent')[k]? →
        ∀ contents contents', Call.Brings got sender tag k contents → Call.Brings got' sender tag k contents' →
          contents = contents' := by
  obtain ⟨requests, -, kept⟩ := past.accounts stopped
  refine ⟨fun source tag k contents brings => ?_, (past.records rfl).lawful.once, kept.once, kept.untouched, ?_⟩
  · obtain ⟨sender, rfl, inside, delivered⟩ := past.brings_delivered stopped brings
    exact ⟨sender, rfl, inside, delivered, fun sent ended => past.brings_sent stopped brings ended⟩
  · intro _ _ _ _ past' got' stopped' sender tag k sent sent' ended ended' same contents contents' brings brings'
    have first := past.brings_sent stopped brings ended
    rw [same, past'.brings_sent stopped' brings' ended'] at first
    exact (Option.some.inj first).symm

/-! Of two messages a rank waits for the second first. The first does not fit into its buffer. -/

def crossedConduct (rank : Nat) : Conduct Int :=
  if rank = 0 then .send 1 5 #[1] (.send 1 5 #[2] .stop)
  else .receive 0 5 #[0, 0] (.receive 0 5 #[0] (.wait 1 fun _ _ => .wait 0 fun _ _ => .wait 1 fun _ _ => .stop))

def crossedSender : List (Call Int) := [.sent 0 1 5 #[1], .sent 1 1 5 #[2]]

def crossedReceiver : List (Call Int) :=
  [.posted 0 0 5 #[0, 0], .posted 1 0 5 #[0], .waited 1 #[2] none, .waited 0 #[0, 0] (some (.sizeMismatch 1 5 0 2 1)),
    .waited 1 #[2] (some .requestConsumed)]

theorem crossed_history : ∃ history state, History (Conduct.world 2 crossedConduct) history state ∧
    state.ranks[0]? = some (.finished crossedSender) ∧ state.ranks[1]? = some (.finished crossedReceiver) := by
  have h0 : History (Conduct.world 2 crossedConduct) [] (Conduct.world 2 crossedConduct) := .start
  have h1 := h0.answered 1 rfl rfl rfl
  have h2 := h1.answered 0 rfl rfl rfl
  have h3 := h2.answered 0 rfl rfl rfl
  have h4 := h3.answered 1 rfl rfl rfl
  have h5 := h4.answered 1 rfl rfl rfl
  have h6 := h5.answered 1 rfl rfl rfl
  exact ⟨_, _, h6, rfl, rfl⟩

theorem receives_pair_with_sends_crossed : ∃ history state, History (Conduct.world 2 crossedConduct) history state ∧
    state.ranks[1]? = some (.finished crossedReceiver) ∧ Call.Brings crossedReceiver 0 5 1 #[2] ∧
    (1, .receive ⟨0, 1, 5⟩ 1 (some #[2])) ∈ history ∧ (Call.sends 1 5 crossedSender)[1]? = some #[2] ∧
    (Event.deliveries ⟨0, 1, 5⟩ (allEvents history)).Nodup ∧ crossedReceiver.countP (Call.succeeds 1) ≤ 1 ∧
    Call.held 0 (crossedReceiver.take 3) = some #[0, 0] := by
  obtain ⟨history, state, past, ended, stopped⟩ := crossed_history
  obtain ⟨paired, unique, once, untouched, -⟩ := receives_pair_with_sends past stopped
  have brings : Call.Brings crossedReceiver 0 5 1 #[2] := ⟨1, #[0], rfl, by decide⟩
  obtain ⟨sender, same, -, delivered, sent⟩ := paired 0 5 1 #[2] brings
  obtain rfl : sender = 0 := by omega
  exact ⟨history, state, past, stopped, brings, delivered, sent _ ended, unique _, once 1, untouched _ 0 _ _ _ rfl⟩

end HaloMesh.Transport
