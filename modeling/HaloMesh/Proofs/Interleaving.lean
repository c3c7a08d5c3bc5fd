import HaloMesh.Proofs.MailHistory
import Mathlib.Algebra.Order.BigOperators.Group.Finset
import Mathlib.Data.Finset.Lattice.Fold
import Mathlib.Logic.Relation

/-! Ranks that agree on what they send each other run to their ends in every interleaving. The
agreement is a script of events for each rank in which every receive names the message that the
sender's script posts under its number. Then the order in which ranks are answered decides
nothing: each of them can only follow its script. No rank waits for ever, for messages are
posted along a depth that grows from every receive to the posts after it. -/

namespace HaloMesh.Transport
open Event

variable {μ β : Type}

/-- Scripts for the ranks of a world that fit together. Ranks post and claim under their own
names only, claims are numbered in order, and every post is received once by its receiver. -/
structure Agreement (count : Nat) (scripts : Nat → List (Event μ)) (depth : MailKey → Nat → Nat) : Prop where
  sends : ∀ i < count, ∀ (key : MailKey) (message : μ), .post key message ∈ scripts i → key.sender = i
  claims : ∀ i < count, ∀ (key : MailKey) (number : Nat), .claim key number ∈ scripts i → key.receiver = i
  receives : ∀ i < count, ∀ (key : MailKey) (number : Int) (answer : Option μ),
    .receive key number answer ∈ scripts i → key.receiver = i ∧ ∃ j < count, ∃ (n : Nat) (message : μ),
      key.sender = j ∧ number = n ∧ answer = some message ∧ (posts key (scripts j))[n]? = some message
  looks : ∀ i < count, ∀ (sender receiver : Int) (tags : List Int), .pending sender receiver tags ∉ scripts i
  numbered : ∀ i < count, ∀ key, Event.claims key (scripts i) = List.range (Event.claims key (scripts i)).length
  once : ∀ i < count, ∀ key, (deliveries key (scripts i)).Nodup
  complete : ∀ i < count, ∀ (key : MailKey) (n : Nat), n < (posts key (scripts i)).length →
    ∃ j < count, key.receiver = j ∧ (n : Int) ∈ deliveries key (scripts j)
  ordered : ∀ i < count, ∀ before after key (number : Nat) answer,
    scripts i = before ++ .receive key number answer :: after → ∀ other n,
      (posts other before).length ≤ n → n < (posts other (scripts i)).length → depth key number < depth other n

/-- Every rank has done the first part of its script and will do the rest. -/
def Follows (scripts : Nat → List (Event μ)) (results : Nat → β) (state : Situation μ β)
    (history : List (Nat × Event μ)) : Prop :=
  ∀ i p, state.ranks[i]? = some p →
    ∃ rest, scripts i = ofRank i history ++ rest ∧ Program.Path p rest (.finished (results i))

theorem Follows.done {scripts : Nat → List (Event μ)} {results : Nat → β} {state : Situation μ β}
    {history : List (Nat × Event μ)} (follows : Follows scripts results state history) {i : Nat}
    (ended : state.ranks[i]? = some (.finished (results i))) : ofRank i history = scripts i := by
  obtain ⟨rest, script, path⟩ := follows i _ ended
  rw [script, path.finished_eq.1, List.append_nil]

namespace Agreement

variable {count : Nat} {scripts : Nat → List (Event μ)} {depth : MailKey → Nat → Nat} {results : Nat → β}
  {start state : Situation μ β} {history : List (Nat × Event μ)}

private theorem mem_script (size : start.ranks.length = count) (past : History start history state)
    (follows : Follows scripts results state history) {i : Nat} {event : Event μ}
    (member : (i, event) ∈ history) : i < count ∧ event ∈ scripts i := by
  have inside := past.rank_lt member
  have present : i < state.ranks.length := past.length_ranks ▸ inside
  obtain ⟨rest, script, -⟩ := follows i _ (List.getElem?_eq_getElem present)
  exact ⟨size ▸ inside, script ▸ List.mem_append_left _ (mem_ofRank.mpr member)⟩

theorem posts_eq (agreement : Agreement count scripts depth) (size : start.ranks.length = count)
    (past : History start history state) (follows : Follows scripts results state history) (key : MailKey)
    (i : Nat) (sender : key.sender = i) : posts key (allEvents history) = posts key (ofRank i history) := by
  apply posts_allEvents
  intro other message member
  obtain ⟨inside, scripted⟩ := mem_script size past follows member
  have own := agreement.sends other inside key message scripted
  omega

theorem claims_eq (agreement : Agreement count scripts depth) (size : start.ranks.length = count)
    (past : History start history state) (follows : Follows scripts results state history) (key : MailKey)
    (i : Nat) (receiver : key.receiver = i) :
    Event.claims key (allEvents history) = Event.claims key (ofRank i history) := by
  apply claims_allEvents
  intro other number member
  obtain ⟨inside, scripted⟩ := mem_script size past follows member
  have own := agreement.claims other inside key number scripted
  omega

theorem deliveries_eq (agreement : Agreement count scripts depth) (size : start.ranks.length = count)
    (past : History start history state) (follows : Follows scripts results state history) (key : MailKey)
    (i : Nat) (receiver : key.receiver = i) :
    deliveries key (allEvents history) = deliveries key (ofRank i history) := by
  apply deliveries_allEvents
  intro other number message member
  obtain ⟨inside, scripted⟩ := mem_script size past follows member
  have own := (agreement.receives other inside key number (some message) scripted).1
  omega

/-- The request that a rank is answered is the next one of its script, with the answer that
stands there. -/
theorem event_scripted (agreement : Agreement count scripts depth) (size : start.ranks.length = count)
    (fresh : start.box = MailBox.empty) (past : History start history state)
    (follows : Follows scripts results state history) {i : Nat} {p q : Program μ β} {box' : MailBox μ}
    (found : state.ranks[i]? = some p) (stepped : p.step? state.box = some (q, box')) :
    ∃ event rest, p.event? state.box = some event ∧ scripts i = ofRank i history ++ event :: rest ∧
      Program.Path q rest (.finished (results i)) := by
  have inside : i < count := by
    rw [← size, ← past.length_ranks]
    exact (List.getElem?_eq_some_iff.mp found).1
  have records := past.records fresh
  obtain ⟨rest, script, path⟩ := follows i p found
  cases path with
  | here => simp [Program.step?] at stepped
  | @post key message next _ rest path =>
    simp only [Program.step?, Option.some.injEq, Prod.mk.injEq] at stepped
    obtain ⟨rfl, -⟩ := stepped
    exact ⟨_, rest, rfl, script, path⟩
  | @claim key next _ rest number path =>
    simp only [Program.step?, Option.some.injEq, Prod.mk.injEq] at stepped
    obtain ⟨rfl, -⟩ := stepped
    have own := agreement.claims i inside key number (by simp [script])
    -- the number handed out and the number in the script both count the claims before
    have handed : (state.box.slot key).claimed = (Event.claims key (ofRank i history)).length := by
      rw [records.claimed, agreement.claims_eq size past follows key i own]
    have scripted : number = (Event.claims key (ofRank i history)).length := by
      have all := agreement.numbered i inside key
      have place := congrArg (fun numbers => numbers[(Event.claims key (ofRank i history)).length]?) all
      simp only [script, claims_append] at place
      have here : Event.claims key (.claim key number :: rest) = number :: Event.claims key rest := by
        simp [Event.claims, claimed?]
      rw [here, List.getElem?_append_right (Nat.le_refl _), List.getElem?_range (by simp)] at place
      simpa using place
    refine ⟨_, rest, rfl, ?_, ?_⟩
    · rw [handed, ← scripted, script]
    · rw [MailBox.claim, handed, ← scripted]
      exact path
  | @receive key number next _ rest answer path =>
    simp only [Program.step?, Option.map_eq_some_iff] at stepped
    obtain ⟨⟨message, left⟩, taken, same⟩ := stepped
    simp only [Prod.mk.injEq] at same
    obtain ⟨rfl, -⟩ := same
    obtain ⟨-, j, insidej, n, content, sender, rfl, rfl, posted⟩ :=
      agreement.receives i inside key number answer (by simp [script])
    -- the message in the box stands under this number in the sender's script
    have equal : message = content := by
      simp only [MailBox.take?, Option.map_eq_some_iff, Prod.mk.injEq] at taken
      obtain ⟨_, kept, rfl, -⟩ := taken
      obtain ⟨k, same, earlier, -⟩ := (records.find_iff key n _).mp kept
      obtain rfl : n = k := by omega
      rw [agreement.posts_eq size past follows key j sender] at earlier
      have present : j < state.ranks.length := by
        rw [past.length_ranks, size]
        exact insidej
      obtain ⟨later, scriptj, -⟩ := follows j _ (List.getElem?_eq_getElem present)
      rw [scriptj, posts_append, List.getElem?_append_left (List.getElem?_eq_some_iff.mp earlier).1] at posted
      exact Option.some.inj (earlier.symm.trans posted)
    subst equal
    exact ⟨_, rest, by simp [Program.event?, taken], script, path⟩
  | @pending sender receiver next _ rest tags path =>
    exact absurd (by simp [script]) (agreement.looks i inside sender receiver tags)

theorem follow_step (agreement : Agreement count scripts depth) (size : start.ranks.length = count)
    (fresh : start.box = MailBox.empty) (past : History start history state)
    (follows : Follows scripts results state history) {next : Situation μ β} (moved : Moves state next) :
    ∃ i < count, ∃ event, History start (history ++ [(i, event)]) next ∧
      Follows scripts results next (history ++ [(i, event)]) := by
  cases moved with
  | @answered ranks box box' p q i found stepped =>
    obtain ⟨event, rest, answer, script, path⟩ := agreement.event_scripted size fresh past follows found stepped
    have inside := (List.getElem?_eq_some_iff.mp found).1
    refine ⟨i, by rw [← size, ← past.length_ranks]; exact inside, event, past.answered i found stepped answer, ?_⟩
    intro j r current
    by_cases own : i = j
    · subst own
      obtain rfl : q = r := by simpa [inside] using current
      exact ⟨rest, by simp [script], path⟩
    · obtain ⟨later, scriptj, pathj⟩ := follows j r (by simpa [own] using current)
      exact ⟨later, by simpa [own] using scriptj, pathj⟩

/-- Whatever ranks were answered, all of them have kept to their scripts. -/
theorem follow (agreement : Agreement count scripts depth) (size : start.ranks.length = count)
    (fresh : start.box = MailBox.empty)
    (begins : ∀ i p, start.ranks[i]? = some p → Program.Path p (scripts i) (.finished (results i)))
    (reached : Relation.ReflTransGen Moves start state) :
    ∃ history, History start history state ∧ Follows scripts results state history := by
  induction reached with
  | refl => exact ⟨[], .start, fun i p found => ⟨scripts i, rfl, begins i p found⟩⟩
  | tail _ moved ih =>
    obtain ⟨history, past, follows⟩ := ih
    obtain ⟨i, -, event, past', follows'⟩ := agreement.follow_step size fresh past follows moved
    exact ⟨_, past', follows'⟩

private theorem waits_for (agreement : Agreement count scripts depth) (size : start.ranks.length = count)
    (past : History start history state) (follows : Follows scripts results state history)
    (stuck : ∀ next, ¬ Moves state next) {i : Nat} {p : Program μ β} (found : state.ranks[i]? = some p)
    (unfinished : p ≠ .finished (results i)) : ∃ key, ∃ (n : Nat) (answer : Option μ) (rest : List (Event μ)),
      scripts i = ofRank i history ++ .receive key n answer :: rest ∧ state.box.take? key n = none := by
  have inside : i < count := by
    rw [← size, ← past.length_ranks]
    exact (List.getElem?_eq_some_iff.mp found).1
  obtain ⟨rest, script, path⟩ := follows i p found
  have still : p.step? state.box = none := by
    cases stepped : p.step? state.box with
    | none => rfl
    | some next => exact absurd (.answered i found stepped) (stuck _)
  cases path with
  | here => exact absurd rfl unfinished
  | post | claim | pending => simp [Program.step?] at still
  | @receive key number next _ rest answer path =>
    obtain ⟨-, j, -, n, message, -, rfl, -, -⟩ := agreement.receives i inside key number answer (by simp [script])
    exact ⟨key, n, answer, rest, script, by simpa [Program.step?] using still⟩

private theorem not_posted (agreement : Agreement count scripts depth) (size : start.ranks.length = count)
    (fresh : start.box = MailBox.empty) (past : History start history state)
    (follows : Follows scripts results state history) {i : Nat} {key : MailKey} {n : Nat} {answer : Option μ}
    {rest : List (Event μ)} (inside : i < count)
    (script : scripts i = ofRank i history ++ .receive key n answer :: rest)
    (missing : state.box.take? key n = none) : ∃ j < count, key.sender = j ∧
      (posts key (ofRank j history)).length ≤ n ∧ n < (posts key (scripts j)).length := by
  obtain ⟨receiver, j, insidej, k, message, sender, same, rfl, posted⟩ :=
    agreement.receives i inside key n answer (by simp [script])
  obtain rfl : n = k := by omega
  refine ⟨j, insidej, sender, ?_, (List.getElem?_eq_some_iff.mp posted).1⟩
  by_contra early
  have records := past.records fresh
  have undelivered : (n : Int) ∉ deliveries key (allEvents history) := by
    rw [agreement.deliveries_eq size past follows key i receiver]
    intro earlier
    have once := agreement.once i inside key
    rw [script, deliveries_append, List.nodup_append] at once
    exact once.2.2 n earlier n (by simp [deliveries, delivered?]) rfl
  rw [← agreement.posts_eq size past follows key j sender] at early
  have found := List.getElem?_eq_getElem (Nat.lt_of_not_le early)
  have kept := (records.find_iff key n _).mpr ⟨n, rfl, found, undelivered⟩
  simp [MailBox.take?, kept] at missing

/-- As long as some rank is not at its end, some rank can move. -/
theorem progress (agreement : Agreement count scripts depth) (size : start.ranks.length = count)
    (fresh : start.box = MailBox.empty) (past : History start history state)
    (follows : Follows scripts results state history) {i : Nat} {p : Program μ β}
    (found : state.ranks[i]? = some p) (unfinished : p ≠ .finished (results i)) : ∃ next, Moves state next := by
  by_contra none
  have stuck : ∀ next, ¬ Moves state next := fun next moved => none ⟨next, moved⟩
  have bound {i : Nat} {p : Program μ β} (found : state.ranks[i]? = some p) : i < count := by
    rw [← size, ← past.length_ranks]
    exact (List.getElem?_eq_some_iff.mp found).1
  obtain ⟨key, n, answer, rest, script, missing⟩ := waits_for agreement size past follows stuck found unfinished
  -- along the chain of waiting ranks the awaited messages get ever less deep
  induction deep : depth key n using Nat.strongRecOn generalizing i p key n answer rest with
  | ind level ih =>
    obtain ⟨j, insidej, sender, early, late⟩ :=
      not_posted agreement size fresh past follows (bound found) script missing
    have present : j < state.ranks.length := by
      rw [past.length_ranks, size]
      exact insidej
    have foundj := List.getElem?_eq_getElem present
    have unfinishedj : state.ranks[j] ≠ .finished (results j) := by
      intro ended
      rw [← follows.done (ended ▸ foundj)] at late
      omega
    obtain ⟨other, k, content, later, scriptj, awaited⟩ :=
      waits_for agreement size past follows stuck foundj unfinishedj
    have less := agreement.ordered j insidej _ _ other k content scriptj key n early late
    exact ih _ (deep ▸ less) foundj unfinishedj other k content later scriptj awaited rfl

/-- Every situation that can be reached can go on, or all ranks have ended as their scripts say
and all mail was delivered. -/
theorem runs (agreement : Agreement count scripts depth) (size : start.ranks.length = count)
    (fresh : start.box = MailBox.empty)
    (begins : ∀ i p, start.ranks[i]? = some p → Program.Path p (scripts i) (.finished (results i)))
    (reached : Relation.ReflTransGen Moves start state) :
    (∃ next, Moves state next) ∨
      (state.ranks = (List.range count).map fun i => Program.finished (results i)) ∧
        ∀ key, (state.box.slot key).parked = [] := by
  obtain ⟨history, past, follows⟩ := agreement.follow size fresh begins reached
  have total : state.ranks.length = count := past.length_ranks.trans size
  by_cases ended : ∀ i p, state.ranks[i]? = some p → p = Program.finished (results i)
  · refine .inr ⟨?_, ?_⟩
    · apply List.ext_getElem
      · simp [total]
      · intro i inside _
        simpa using ended i _ (List.getElem?_eq_getElem inside)
    · have done (i : Nat) (inside : i < count) : ofRank i history = scripts i := by
        have found := List.getElem?_eq_getElem (total ▸ inside : i < state.ranks.length)
        exact follows.done (ended i _ found ▸ found)
      intro key
      rw [(past.records fresh).parked key, List.eq_nil_iff_forall_not_mem]
      rintro ⟨n, message⟩ member
      obtain ⟨posted, undelivered⟩ := mem_waiting.mp member
      have scripted : message ∈ posts key (allEvents history) := List.mem_of_getElem? posted
      obtain ⟨⟨i, event⟩, entry, same⟩ := List.mem_map.mp (mem_posts.mp scripted)
      simp only at same
      subst same
      obtain ⟨inside, inScript⟩ := mem_script size past follows entry
      have sender := agreement.sends i inside key message inScript
      rw [agreement.posts_eq size past follows key i sender, done i inside] at posted
      obtain ⟨j, insidej, receiver, delivered⟩ :=
        agreement.complete i inside key n (List.getElem?_eq_some_iff.mp posted).1
      rw [agreement.deliveries_eq size past follows key j receiver, done j insidej] at undelivered
      exact undelivered delivered
  · simp only [not_forall] at ended
    obtain ⟨i, p, found, unfinished⟩ := ended
    exact .inl (agreement.progress size fresh past follows found unfinished)

/-- Agreeing ranks come to their ends: with every answer less of the scripts is left. -/
theorem ends (agreement : Agreement count scripts depth) (size : start.ranks.length = count)
    (fresh : start.box = MailBox.empty)
    (begins : ∀ i p, start.ranks[i]? = some p → Program.Path p (scripts i) (.finished (results i))) :
    ∃ history state, History start history state ∧ ∀ i < count, ofRank i history = scripts i := by
  suffices finish : ∀ (left : Nat) (history : List (Nat × Event μ)) (state : Situation μ β),
      History start history state → Follows scripts results state history →
      ∑ i ∈ Finset.range count, ((scripts i).length - (ofRank i history).length) = left →
      ∃ history state, History start history state ∧ ∀ i < count, ofRank i history = scripts i from
    finish _ [] start .start (fun i p found => ⟨scripts i, rfl, begins i p found⟩) rfl
  intro left
  induction left using Nat.strongRecOn with
  | ind left ih =>
    intro history state past follows measured
    have total : state.ranks.length = count := past.length_ranks.trans size
    by_cases ended : ∀ i p, state.ranks[i]? = some p → p = Program.finished (results i)
    · refine ⟨history, state, past, fun i inside => ?_⟩
      have found := List.getElem?_eq_getElem (total ▸ inside : i < state.ranks.length)
      exact follows.done (ended i _ found ▸ found)
    · simp only [not_forall] at ended
      obtain ⟨_, _, found, unfinished⟩ := ended
      obtain ⟨next, moved⟩ := agreement.progress size fresh past follows found unfinished
      obtain ⟨i, inside, event, past', follows'⟩ := agreement.follow_step size fresh past follows moved
      have room : (ofRank i history).length < (scripts i).length := by
        have present : i < next.ranks.length := by
          rw [past'.length_ranks, size]
          exact inside
        obtain ⟨rest, script, -⟩ := follows' i _ (List.getElem?_eq_getElem present)
        rw [script]
        simp
      refine ih _ (measured ▸ ?_) _ next past' follows' rfl
      refine Finset.sum_lt_sum (fun j _ => ?_) ⟨i, Finset.mem_range.mpr inside, ?_⟩
      · rw [ofRank_append, List.length_append]
        omega
      · rw [ofRank_append, List.length_append, ofRank_singleton, if_pos rfl, List.length_singleton]
        omega

end Agreement

end HaloMesh.Transport
