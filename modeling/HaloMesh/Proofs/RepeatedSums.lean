import HaloMesh.Proofs.GroupSums
import HaloMesh.Proofs.OutstandingHandles

/-! Sums over one group, call after call. A member that has its sum goes on with the next call while others are still in the
last one, and all calls may have one tag. The messages of two members are told apart by the number of calls with their tag,
which is the same on both sides. -/

namespace HaloMesh.Transport
open Event Meeting

variable {μ : Type}

/-- A call that every member of a group makes with one tag and its own values. -/
structure Round (μ : Type) where
  tag : Int
  values : Int → μ

namespace Round

def tags (rounds : List (Round μ)) : List Int := rounds.map Round.tag

/-- What a member does in a call after calls with some tags. -/
def requests (ranks : List Int) (rank : Int) (done : List Int) (c : Round μ) : List (Event μ) :=
  Meeting.requests c.tag (fun _ => c.values) rank (List.replicate (done.count c.tag) ranks) ranks

def script (ranks : List Int) (rank : Int) : List Int → List (Round μ) → List (Event μ)
  | _, [] => []
  | done, c :: rest => requests ranks rank done c ++ script ranks rank (done ++ [c.tag]) rest

variable {ranks : List Int} {rank : Int} {done : List Int} {rounds : List (Round μ)} {c : Round μ} {r : Int}

theorem script_append (first second : List (Round μ)) : script ranks rank done (first ++ second) =
    script ranks rank done first ++ script ranks rank (done ++ tags first) second := by
  induction first generalizing done with
  | nil => simp [script, tags]
  | cons c rest ih => simp [script, tags, ih]

theorem met_replicate (among : r ∈ others rank ranks) (n : Nat) : met rank r (List.replicate n ranks) = n := by
  simp [met, among]

theorem mem_requests {event : Event μ} : event ∈ requests ranks rank done c ↔ ∃ r ∈ others rank ranks,
    event = .post ⟨rank, r, c.tag⟩ (c.values rank) ∨ event = .claim ⟨r, rank, c.tag⟩ (done.count c.tag) ∨
      event = .receive ⟨r, rank, c.tag⟩ (done.count c.tag) (some (c.values r)) := by
  rw [requests, Meeting.mem_requests]
  refine exists_congr fun r => and_congr_right fun among => ?_
  rw [met_replicate among]

/-- Every event of a script belongs to one of its calls. -/
theorem script_split {before after : List (Event μ)} {event : Event μ}
    (split : script ranks rank done rounds = before ++ event :: after) :
    ∃ first c rest early late, rounds = first ++ c :: rest ∧ before = script ranks rank done first ++ early ∧
      requests ranks rank (done ++ tags first) c = early ++ event :: late := by
  induction rounds generalizing done before with
  | nil => simp [script] at split
  | cons c rest ih =>
    rw [script, List.append_eq_append_iff] at split
    rcases split with ⟨middle, rfl, split⟩ | ⟨middle, split, whole⟩
    · obtain ⟨first, c', rest', early, late, rfl, rfl, here⟩ := ih split
      exact ⟨c :: first, c', rest', early, late, rfl, by rw [script, List.append_assoc], by simpa [tags] using here⟩
    · cases middle with
      | nil =>
        obtain ⟨first, c', rest', early, late, rfl, same, here⟩ := ih (whole.symm.trans (List.nil_append _).symm)
        refine ⟨c :: first, c', rest', early, late, rfl, ?_, by simpa [tags] using here⟩
        rw [script, List.append_assoc, ← same, split, List.append_nil, List.append_nil]
      | cons head tail =>
        obtain ⟨rfl, -⟩ := List.cons_eq_cons.mp whole
        exact ⟨[], c, rest, before, tail, rfl, rfl, by simpa [tags] using split⟩

theorem mem_script {event : Event μ} (member : event ∈ script ranks rank done rounds) :
    ∃ first c rest, rounds = first ++ c :: rest ∧ event ∈ requests ranks rank (done ++ tags first) c := by
  obtain ⟨before, after, split⟩ := List.append_of_mem member
  obtain ⟨first, c, rest, early, late, whole, -, here⟩ := script_split split
  exact ⟨first, c, rest, whole, here ▸ List.mem_append_right _ List.mem_cons_self⟩

/-! What a member asks of one key. -/

private theorem numbers_cons (tag : Int) (done : List Int) (c : Round μ) (rest : List (Round μ)) :
    List.range' (done.count tag) ((tags (c :: rest)).count tag) = (if c.tag = tag then [done.count tag] else []) ++
      List.range' ((done ++ [c.tag]).count tag) ((tags rest).count tag) := by
  rw [tags, List.map_cons, List.count_cons, List.count_append, List.count_singleton]
  by_cases same : c.tag = tag
  · simp [same, List.range'_succ, tags]
  · simp [same, tags]

section Reading

variable (key : MailKey) (distinct : ranks.Nodup)
include distinct

theorem posts_script : posts key (script ranks rank done rounds) =
    if key.sender = rank ∧ key.receiver ∈ others rank ranks then
      (rounds.filter fun c => c.tag = key.tag).map fun c => c.values rank else [] := by
  induction rounds generalizing done with
  | nil => simp [script, posts]
  | cons c rest ih =>
    rw [script, posts_append, requests, posts_requests key distinct, ih]
    by_cases own : key.sender = rank <;> by_cases among : key.receiver ∈ others rank ranks <;>
      by_cases same : c.tag = key.tag <;> simp [own, among, same, eq_comm]

theorem claims_script : Event.claims key (script ranks rank done rounds) =
    if key.receiver = rank ∧ key.sender ∈ others rank ranks then
      List.range' (done.count key.tag) ((tags rounds).count key.tag) else [] := by
  induction rounds generalizing done with
  | nil => simp [script, Event.claims, tags]
  | cons c rest ih =>
    rw [script, claims_append, requests, claims_requests key distinct, ih, numbers_cons]
    by_cases own : key.receiver = rank <;> by_cases among : key.sender ∈ others rank ranks <;>
      by_cases same : c.tag = key.tag <;> simp [own, among, same, eq_comm, met_replicate]

theorem deliveries_script : deliveries key (script ranks rank done rounds) =
    if key.receiver = rank ∧ key.sender ∈ others rank ranks then
      (List.range' (done.count key.tag) ((tags rounds).count key.tag)).map Nat.cast else [] := by
  induction rounds generalizing done with
  | nil => simp [script, deliveries, tags]
  | cons c rest ih =>
    rw [script, deliveries_append, requests, deliveries_requests key distinct, ih, numbers_cons]
    by_cases own : key.receiver = rank <;> by_cases among : key.sender ∈ others rank ranks <;>
      by_cases same : c.tag = key.tag <;> simp [own, among, same, eq_comm, met_replicate]

end Reading

/-! The order of the calls. -/

theorem count_tags (rounds : List (Round μ)) (tag : Int) :
    (tags rounds).count tag = (rounds.filter fun c => c.tag = tag).length := by
  rw [tags, List.count_eq_countP, List.countP_map, List.countP_eq_length_filter]
  simp [Function.comp_def, beq_eq_decide]

/-- The message of a call stands under the number of calls with its tag before. -/
theorem filter_split (first rest : List (Round μ)) (c : Round μ) :
    ((first ++ c :: rest).filter fun other => other.tag = c.tag)[(tags first).count c.tag]? = some c := by
  rw [List.filter_append, count_tags, List.getElem?_append_right (Nat.le_refl _), Nat.sub_self,
    List.filter_cons_of_pos (by simp)]
  rfl

theorem idxOfNth_split (first rest : List (Round μ)) (c : Round μ) :
    (tags (first ++ c :: rest)).idxOfNth c.tag ((tags first).count c.tag) = first.length := by
  have inside : first.length < (tags (first ++ c :: rest)).length := by simp [tags]
  have here : (tags (first ++ c :: rest))[first.length] = c.tag := by simp [tags]
  have before : (tags first).count c.tag =
      (tags (first ++ c :: rest)).countBefore (tags (first ++ c :: rest))[first.length] first.length := by
    rw [here, List.countBefore_eq_count_take, tags, tags, List.map_append, List.take_left' (by simp)]
  rw [before, ← here]
  exact List.idxOfNth_countBefore_getElem

theorem lt_idxOfNth {first rest : List (Round μ)} {c : Round μ} {tag : Int} {n : Nat}
    (past : (tags (first ++ [c])).count tag ≤ n) (late : n < (tags (first ++ c :: rest)).count tag) :
    first.length < (tags (first ++ c :: rest)).idxOfNth tag n := by
  by_contra early
  have inside := List.idxOfNth_lt_length_of_lt_count late
  have next : ((tags (first ++ c :: rest)).take ((tags (first ++ c :: rest)).idxOfNth tag n + 1)).count tag = n + 1 := by
    rw [List.take_succ_eq_append_getElem inside, List.count_append, ← List.countBefore_eq_count_take,
      List.countBefore_idxOfNth_of_lt_count late, List.getElem_idxOfNth_eq, List.count_singleton_self]
  have among : ((tags (first ++ c :: rest)).take (first.length + 1)) = tags (first ++ [c]) := by
    rw [List.append_cons, tags, tags, List.map_append, List.take_left' (by simp)]
  have fewer := ((tags (first ++ c :: rest)).take_sublist_take_left
    (show (tags (first ++ c :: rest)).idxOfNth tag n + 1 ≤ first.length + 1 by omega)).count_le tag
  rw [next, among] at fewer
  omega

/-- Only members make the calls. -/
def attended (ranks : List Int) (rounds : List (Round μ)) (rank : Int) : List (Round μ) :=
  if rank ∈ ranks then rounds else []

theorem mem_of_attended {first rest : List (Round μ)} (whole : attended ranks rounds rank = first ++ c :: rest) :
    rank ∈ ranks ∧ rounds = first ++ c :: rest := by
  by_cases member : rank ∈ ranks
  · exact ⟨member, (if_pos member).symm.trans whole⟩
  · simp [attended, member] at whole

section Agree

variable {count : Nat} (distinct : ranks.Nodup)
  (present : ∀ i < count, (i : Int) ∈ ranks → ∀ r ∈ ranks, ∃ j < count, r = (j : Int))
include distinct present

theorem posted_delivered {i : Nat} (inside : i < count) {key : MailKey} {n : Nat}
    (less : n < (posts key (script ranks i [] (attended ranks rounds i))).length) :
    ∃ j < count, key.receiver = (j : Int) ∧ (n : Int) ∈ deliveries key (script ranks j [] (attended ranks rounds j)) := by
  rw [posts_script key distinct] at less
  split at less
  next mine =>
    obtain ⟨own, less⟩ : (i : Int) ∈ ranks ∧ n < (tags rounds).count key.tag := by
      rw [List.length_map, ← count_tags, attended] at less
      split at less
      next member => exact ⟨member, less⟩
      next => simp [tags] at less
    obtain ⟨other, apart⟩ := mem_others.mp mine.2
    obtain ⟨j, within, receiver⟩ := present i inside own _ other
    refine ⟨j, within, receiver, ?_⟩
    have meets : key.sender ∈ others j ranks := mem_others.mpr ⟨mine.1 ▸ own, by rw [mine.1, ← receiver]; exact apart.symm⟩
    rw [deliveries_script key distinct, if_pos ⟨receiver, meets⟩, attended, if_pos (receiver ▸ other), List.mem_map]
    exact ⟨n, List.mem_range'_1.mpr ⟨Nat.zero_le n, by simpa using less⟩, rfl⟩
  next => simp at less

omit present in
/-- What a member posts after it has received in a call belongs to a later call. -/
theorem receive_ordered {i : Nat} {before after : List (Event μ)} {key other : MailKey} {number n : Nat}
    {answer : Option μ}
    (split : script ranks i [] (attended ranks rounds i) = before ++ Event.receive key number answer :: after)
    (early : (posts other before).length ≤ n)
    (late : n < (posts other (script ranks i [] (attended ranks rounds i))).length) :
    (tags rounds).idxOfNth key.tag number < (tags rounds).idxOfNth other.tag n := by
  obtain ⟨first, c, rest, opening, closing, whole, rfl, here⟩ := script_split split
  rw [List.nil_append] at here
  obtain ⟨r, among, kind⟩ := mem_requests.mp (here ▸ List.mem_append_right _ List.mem_cons_self)
  simp only [reduceCtorEq, false_or, Event.receive.injEq] at kind
  obtain ⟨rfl, same, -⟩ := kind
  obtain ⟨own, rfl⟩ := mem_of_attended whole
  obtain rfl : number = (tags first).count c.tag := by exact_mod_cast same
  rw [idxOfNth_split]
  -- what a member posts in a call it posts before it receives anything
  have posted : posts other (script ranks i [] first ++ opening) = posts other (script ranks i [] (first ++ [c])) := by
    rw [script_append, posts_append, posts_append, posts_opening other here, script, script, List.append_nil,
      List.nil_append]
    rfl
  rw [posted, posts_script other distinct] at early
  rw [attended, if_pos own, posts_script other distinct] at late
  by_cases mine : other.sender = i ∧ other.receiver ∈ others i ranks
  · rw [if_pos mine, List.length_map, ← count_tags] at early late
    exact lt_idxOfNth early late
  · rw [if_neg mine] at late
    cases late

/-- Members that make the same calls in the same order agree. -/
theorem agreement (rounds : List (Round μ)) : Agreement count (fun i => script ranks i [] (attended ranks rounds i))
    fun key n => (tags rounds).idxOfNth key.tag n where
  sends i inside key message member := by
    obtain ⟨first, c, rest, -, here⟩ := mem_script member
    obtain ⟨r, -, kind⟩ := mem_requests.mp here
    simp only [reduceCtorEq, or_false, Event.post.injEq] at kind
    rw [kind.1]
  claims i inside key number member := by
    obtain ⟨first, c, rest, -, here⟩ := mem_script member
    obtain ⟨r, -, kind⟩ := mem_requests.mp here
    simp only [reduceCtorEq, false_or, or_false, Event.claim.injEq] at kind
    rw [kind.1]
  receives i inside key number answer member := by
    obtain ⟨first, c, rest, whole, here⟩ := mem_script member
    obtain ⟨r, among, kind⟩ := mem_requests.mp here
    simp only [reduceCtorEq, false_or, Event.receive.injEq, List.nil_append] at kind
    obtain ⟨rfl, rfl, rfl⟩ := kind
    obtain ⟨own, rfl⟩ := mem_of_attended whole
    obtain ⟨other, apart⟩ := mem_others.mp among
    obtain ⟨j, within, rfl⟩ := present i inside own r other
    refine ⟨rfl, j, within, (tags first).count c.tag, c.values j, rfl, rfl, rfl, ?_⟩
    rw [posts_script _ distinct, attended, if_pos other, if_pos ⟨rfl, mem_others.mpr ⟨own, apart.symm⟩⟩, List.getElem?_map,
      filter_split]
    rfl
  looks i inside sender receiver tags member := by
    obtain ⟨first, c, rest, -, here⟩ := mem_script member
    obtain ⟨r, -, kind⟩ := mem_requests.mp here
    simp at kind
  numbered i inside key := by
    rw [claims_script key distinct]
    split
    · rw [List.length_range', List.range_eq_range']
      rfl
    · rfl
  once i inside key := by
    rw [deliveries_script key distinct]
    split
    · exact (List.nodup_range' ..).map fun _ _ same => Int.natCast_inj.mp same
    · exact List.nodup_nil
  complete i inside key n less := posted_delivered distinct present inside less
  ordered i inside before after key number answer split other n early late :=
    receive_ordered distinct split early late

end Agree

end Round
namespace Communicator
open Program

variable {α : Type} [Scalar α]

/-- A rank joins a group, if it may, and makes calls with some tags and values. -/
def sums (e : Endpoint) (ranks : List Int) (calls : List (Int × Array α)) :
    Program (Array α) (Except Error (List (Except Error (Array α)))) :=
  match make e ranks with
  | .error failure => return .error failure
  | .ok c => do return .ok (← calls.mapM fun call => c.allReduceSum call.2 call.1)

/-- The calls that a rank makes in some rounds. -/
def calls (rounds : List (Round (Array α))) (rank : Int) : List (Int × Array α) :=
  rounds.map fun c => (c.tag, c.values rank)

theorem make_ok {e : Endpoint} {ranks : List Int} {c : Communicator} (made : make e ranks = .ok c) :
    c = ⟨e, ranks⟩ ∧ e.rank ∈ ranks ∧ ∀ r ∈ ranks, e.reaches r = true := by
  rw [make] at made
  split at made
  · cases made
  next all =>
    split at made
    next member =>
      cases made
      refine ⟨rfl, member, fun r among => ?_⟩
      simpa using List.find?_eq_none.mp all r among
    next => cases made

theorem calls_path (c : Communicator) (reach : ∀ r ∈ c.ranks, c.endpoint.reaches r = true)
    {rounds : List (Round (Array α))}
    (sizes : ∀ round ∈ rounds, ∀ r ∈ c.ranks, (round.values r).size = (round.values c.endpoint.rank).size)
    (done : List Int) :
    Path ((calls rounds c.endpoint.rank).mapM fun call => c.allReduceSum call.2 call.1)
      (Round.script c.ranks c.endpoint.rank done rounds) (.finished (rounds.map fun round =>
        .ok (orderedSum (round.values c.endpoint.rank).size (c.ranks.map round.values)))) := by
  induction rounds generalizing done with
  | nil => exact .here _
  | cons round rest ih =>
    have first := allReduceSum_path c round.values round.tag
      (fun r => met c.endpoint.rank r (List.replicate (done.count round.tag) c.ranks)) reach
      (sizes round List.mem_cons_self)
    have later := ih (fun other member => sizes other (List.mem_cons_of_mem _ member)) (done ++ [round.tag])
    rw [calls, List.map_cons, List.mapM_cons, Round.script]
    refine first.bind_finished ?_
    rw [← List.append_nil (Round.script _ _ _ rest)]
    exact later.bind_finished (.here _)

/-- The sum that a call is to have. -/
def total (ranks : List Int) (round : Round (Array α)) : Array α :=
  orderedSum (round.values (ranks.headD 0)).size (ranks.map round.values)

theorem total_eq {ranks : List Int} {round : Round (Array α)}
    (sizes : ∀ r ∈ ranks, ∀ s ∈ ranks, (round.values r).size = (round.values s).size) {r : Int} (among : r ∈ ranks) :
    orderedSum (round.values r).size (ranks.map round.values) = total ranks round := by
  cases ranks with
  | nil => cases among
  | cons head rest =>
    rw [total, List.headD_cons, sizes r among head List.mem_cons_self]

/-- A sum has in every place what the members have there, added up in the order of the group from zero on. -/
def Sums (ranks : List Int) (round : Round (Array α)) (sum : Array α) : Prop :=
  (∀ r ∈ ranks, sum.size = (round.values r).size) ∧
    ∀ j < sum.size, sum[j]? = some (ranks.foldl (fun s r => s + ((round.values r)[j]?).getD 0) 0)

theorem total_sums {ranks : List Int} {round : Round (Array α)}
    (sizes : ∀ r ∈ ranks, ∀ s ∈ ranks, (round.values r).size = (round.values s).size) : Sums ranks round (total ranks round) := by
  have alike (v : Array α) (member : v ∈ ranks.map round.values) : v.size = (round.values (ranks.headD 0)).size := by
    obtain ⟨r, among, rfl⟩ := List.mem_map.mp member
    refine sizes r among _ ?_
    cases ranks with
    | nil => cases among
    | cons head rest => exact List.mem_cons_self
  have size : (total ranks round).size = (round.values (ranks.headD 0)).size := orderedSum_size alike
  refine ⟨fun r among => size.trans (alike _ (List.mem_map_of_mem among)).symm, fun j inside => ?_⟩
  rw [total, getElem?_orderedSum alike (size ▸ inside), List.foldl_map]

theorem sums_path {i count : Nat} {ranks : List Int}
    (accepted : (i : Int) ∈ ranks → ∃ c, make ⟨i, count⟩ ranks = .ok c) {rounds : List (Round (Array α))}
    (sizes : ∀ round ∈ rounds, ∀ r ∈ ranks, ∀ s ∈ ranks, (round.values r).size = (round.values s).size) :
    Path (sums ⟨i, count⟩ ranks (calls rounds i)) (Round.script ranks i [] (Round.attended ranks rounds i))
      (.finished ((make ⟨i, count⟩ ranks).map fun _ => rounds.map fun round => .ok (total ranks round))) := by
  cases made : make ⟨i, count⟩ ranks with
  | error failure =>
    have outside : (i : Int) ∉ ranks := fun member => by
      obtain ⟨c, ok⟩ := accepted member
      rw [made] at ok
      cases ok
    rw [sums, made, Round.attended, if_neg outside]
    exact .here _
  | ok c =>
    obtain ⟨rfl, member, reach⟩ := make_ok made
    have path := calls_path ⟨⟨i, count⟩, ranks⟩ reach (fun round among r other => sizes round among r other i member) []
    have results : (rounds.map fun round => (.ok (orderedSum (round.values i).size (ranks.map round.values)) :
        Except Error (Array α))) = rounds.map fun round => .ok (total ranks round) :=
      List.map_congr_left fun round among => by rw [total_eq (sizes round among) member]
    rw [sums, made, Round.attended, if_pos member, ← List.append_nil (Round.script _ _ _ _)]
    refine path.bind_finished ?_
    rw [results]
    exact .here _

end Communicator

open Communicator in
/-- Repeated sums agree. All members of a group, which lists each of its ranks once, make the same sequence of calls, with
tags that may come again and with as many values as the others. In every interleaving all calls succeed, and each of them
gives all members one sum: in every place the values that the members had there in this call, added up in the order of the
group from zero on. No law of addition is used. A rank that may not join the group learns so. -/
theorem sums_agree {α : Type} [Scalar α] {count : Nat} {ranks : List Int} (distinct : ranks.Nodup)
    (accepted : ∀ i < count, (i : Int) ∈ ranks → ∃ c, make ⟨i, count⟩ ranks = .ok c) {rounds : List (Round (Array α))}
    (sizes : ∀ round ∈ rounds, ∀ r ∈ ranks, ∀ s ∈ ranks, (round.values r).size = (round.values s).size) :
    ∃ totals : List (Array α),
      EndsIn ⟨(List.range count).map fun i : Nat => sums ⟨i, count⟩ ranks (calls rounds i), MailBox.empty⟩
        (fun i => (make ⟨i, count⟩ ranks).map fun _ => totals.map .ok) ∧
      List.Forall₂ (Sums ranks) rounds totals := by
  have present (i : Nat) (inside : i < count) (member : (i : Int) ∈ ranks) (r : Int) (among : r ∈ ranks) :
      ∃ j < count, r = (j : Int) := by
    obtain ⟨c, made⟩ := accepted i inside member
    have known := (make_ok made).2.2 r among
    simp only [Endpoint.reaches, Bool.and_eq_true, decide_eq_true_eq] at known
    exact ⟨r.toNat, by omega, by omega⟩
  refine ⟨rounds.map (total ranks), fun state reached => ?_, ?_⟩
  · have size : ((List.range count).map fun i : Nat => sums ⟨i, count⟩ ranks (calls rounds i)).length = count := by simp
    rw [size]
    refine (Round.agreement distinct present rounds).runs size rfl (fun i p found => ?_) reached
    have inside : i < count := size ▸ (List.getElem?_eq_some_iff.mp found).1
    obtain rfl : sums ⟨i, count⟩ ranks (calls rounds i) = p := by simpa [inside] using found
    rw [List.map_map]
    exact sums_path (accepted i inside) sizes
  · exact List.forall₂_map_right_iff.mpr (List.forall₂_same.mpr fun round among => total_sums (sizes round among))

/-- Two calls with one tag by the ranks 2 and 0 of three. -/
def pairRounds : List (Round (Array Whole)) := [⟨7, fun r => #[⟨r + 1⟩]⟩, ⟨7, fun r => #[⟨10 * r⟩]⟩]

open Communicator in
theorem sums_agree_pair : ∃ first second : Array Whole,
    EndsIn ⟨(List.range 3).map fun i : Nat => sums ⟨i, 3⟩ [2, 0] (calls pairRounds i), MailBox.empty⟩
      (fun i => (make ⟨i, 3⟩ [2, 0]).map fun _ => [.ok first, .ok second]) ∧
    first[0]? = some ⟨4⟩ ∧ second[0]? = some ⟨20⟩ := by
  have accepted (i : Nat) (inside : i < 3) (member : (i : Int) ∈ ([2, 0] : List Int)) :
      ∃ c, make ⟨i, 3⟩ [2, 0] = .ok c := by
    interval_cases i
    · exact ⟨_, rfl⟩
    · exact absurd member (by decide)
    · exact ⟨_, rfl⟩
  have sizes (round : Round (Array Whole)) (among : round ∈ pairRounds) (r : Int) (_ : r ∈ ([2, 0] : List Int)) (s : Int)
      (_ : s ∈ ([2, 0] : List Int)) : (round.values r).size = (round.values s).size := by
    simp only [pairRounds, List.mem_cons, List.not_mem_nil, or_false] at among
    rcases among with rfl | rfl <;> rfl
  obtain ⟨totals, ended, all⟩ := sums_agree (by decide) accepted sizes
  cases all with
  | @cons _ first _ _ one more =>
    cases more with
    | @cons _ second _ _ two none =>
      cases none
      have single : first.size = 1 ∧ second.size = 1 := ⟨one.1 2 (by decide), two.1 2 (by decide)⟩
      exact ⟨first, second, ended, one.2 0 (by omega), two.2 0 (by omega)⟩

end HaloMesh.Transport
