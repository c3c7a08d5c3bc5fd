import HaloMesh.Proofs.Interleaving
import Mathlib.Data.List.Perm.Basic

/-! Ranks that meet in groups. A rank goes through the groups that it belongs to, one after the other: in each of
them it sends its values to all other members and then receives theirs. All messages have one tag. If all ranks go
through their groups in one order, the messages of any two ranks pair up by the groups that both belong to, and no
rank waits for ever. -/

namespace HaloMesh.Transport
open Event

variable {μ : Type}

namespace Meeting

def others (rank : Int) (group : List Int) : List Int := group.filter fun r => r ≠ rank

/-- How often a rank has met another in some groups. -/
def met (rank other : Int) (groups : List (List Int)) : Nat := (groups.filter fun g => other ∈ others rank g).length

section Scripts

variable (tag : Int) (values : List Int → Int → μ) (rank : Int)

/-- To send the own values to some ranks, and claim theirs under the numbers that come next. -/
def asks (own : μ) (number : Int → Nat) (ranks : List Int) : List (Event μ) :=
  ranks.flatMap fun r => [.post ⟨rank, r, tag⟩ own, .claim ⟨r, rank, tag⟩ (number r)]

def hears (theirs : Int → μ) (number : Int → Nat) (ranks : List Int) : List (Event μ) :=
  ranks.map fun r => .receive ⟨r, rank, tag⟩ (number r) (some (theirs r))

/-- A meeting with the others of a group after meetings of other groups. -/
def requests (past : List (List Int)) (group : List Int) : List (Event μ) :=
  asks tag rank (values group rank) (fun r => met rank r past) (others rank group) ++
    hears tag rank (values group) (fun r => met rank r past) (others rank group)

def script : List (List Int) → List (List Int) → List (Event μ)
  | _, [] => []
  | past, group :: rest => requests tag values rank past group ++ script (past ++ [group]) rest

end Scripts

variable {tag : Int} {values : List Int → Int → μ} {rank other : Int} {past groups : List (List Int)} {group : List Int}

theorem mem_others {r : Int} : r ∈ others rank group ↔ r ∈ group ∧ r ≠ rank := by simp [others]

theorem met_append (first second : List (List Int)) : met rank other (first ++ second) = met rank other first + met rank other second := by
  simp [met]

theorem met_singleton : met rank other [group] = if other ∈ others rank group then 1 else 0 := by
  by_cases member : other ∈ others rank group <;> simp [met, member]

theorem mem_requests {event : Event μ} : event ∈ requests tag values rank past group ↔ ∃ r ∈ others rank group,
    event = .post ⟨rank, r, tag⟩ (values group rank) ∨ event = .claim ⟨r, rank, tag⟩ (met rank r past) ∨
      event = .receive ⟨r, rank, tag⟩ (met rank r past) (some (values group r)) := by
  simp only [requests, asks, hears, List.mem_append, List.mem_flatMap, List.mem_map, List.mem_cons, List.not_mem_nil,
    or_false]
  constructor
  · rintro (⟨r, member, first | second⟩ | ⟨r, member, rfl⟩)
    · exact ⟨r, member, .inl first⟩
    · exact ⟨r, member, .inr (.inl second)⟩
    · exact ⟨r, member, .inr (.inr rfl)⟩
  · intro holds
    obtain ⟨r, member, first | second | third⟩ := holds
    · exact .inl ⟨r, member, .inl first⟩
    · exact .inl ⟨r, member, .inr second⟩
    · exact .inr ⟨r, member, third.symm⟩

/-- Every event of a script belongs to one of its meetings. -/
theorem script_split {before after : List (Event μ)} {event : Event μ}
    (split : script tag values rank past groups = before ++ event :: after) :
    ∃ first group rest early late, groups = first ++ group :: rest ∧
      before = script tag values rank past first ++ early ∧
      requests tag values rank (past ++ first) group = early ++ event :: late := by
  induction groups generalizing past before with
  | nil => simp [script] at split
  | cons group rest ih =>
    rw [script, List.append_eq_append_iff] at split
    rcases split with ⟨middle, rfl, split⟩ | ⟨middle, split, whole⟩
    · obtain ⟨first, group', rest', early, late, rfl, rfl, here⟩ := ih split
      refine ⟨group :: first, group', rest', early, late, rfl, ?_, by simpa using here⟩
      rw [script, List.append_assoc]
    · cases middle with
      | nil =>
        rw [List.nil_append] at whole
        obtain ⟨first, group', rest', early, late, rfl, same, here⟩ := ih (whole.symm.trans (List.nil_append _).symm)
        refine ⟨group :: first, group', rest', early, late, rfl, ?_, by simpa using here⟩
        rw [script, List.append_assoc, ← same, split, List.append_nil, List.append_nil]
      | cons head tail =>
        obtain ⟨rfl, -⟩ := List.cons_eq_cons.mp whole
        exact ⟨[], group, rest, before, tail, rfl, rfl, by simpa using split⟩

theorem mem_script {event : Event μ} (member : event ∈ script tag values rank past groups) :
    ∃ first group rest, groups = first ++ group :: rest ∧ event ∈ requests tag values rank (past ++ first) group := by
  obtain ⟨before, after, split⟩ := List.append_of_mem member
  obtain ⟨first, group, rest, early, late, whole, -, here⟩ := script_split split
  exact ⟨first, group, rest, whole, here ▸ List.mem_append_right _ List.mem_cons_self⟩

/-! What a rank asks of one key. -/

section Reading

variable (key : MailKey)

private theorem flatMap_single {γ : Type} {ranks : List Int} (distinct : ranks.Nodup) (r : Int) (one : γ) :
    (ranks.flatMap fun other => if other = r then [one] else []) = if r ∈ ranks then [one] else [] := by
  induction ranks with
  | nil => rfl
  | cons head rest ih =>
    obtain ⟨fresh, distinct⟩ := List.nodup_cons.mp distinct
    rw [List.flatMap_cons, ih distinct]
    by_cases same : head = r
    · subst same
      rw [if_pos rfl, if_neg fresh, if_pos List.mem_cons_self, List.append_nil]
    · rw [if_neg same, List.nil_append]
      simp only [List.mem_cons, Ne.symm same, false_or]

/-- In one meeting at most one event is about a key. -/
private theorem read_ranks {γ : Type} {ranks : List Int} (distinct : ranks.Nodup) {own : Prop} [Decidable own] {r : Int} (one : Int → γ)
    (keyed : Int → Prop) [DecidablePred keyed] (same : ∀ other, keyed other ↔ own ∧ other = r) :
    (ranks.flatMap fun other => if keyed other then [one other] else []) = if own ∧ r ∈ ranks then [one r] else [] := by
  by_cases mine : own
  · have each (other : Int) : (if keyed other then [one other] else []) = if other = r then [one r] else [] := by
      by_cases here : other = r
      · rw [if_pos ((same other).mpr ⟨mine, here⟩), if_pos here, here]
      · rw [if_neg fun holds => here ((same other).mp holds).2, if_neg here]
    simp only [each, flatMap_single distinct, mine, true_and]
  · have none_ (other : Int) : ¬ keyed other := fun holds => mine ((same other).mp holds).1
    simp [none_, mine]

theorem posts_requests (distinct : group.Nodup) : posts key (requests tag values rank past group) =
    if (key.sender = rank ∧ key.tag = tag) ∧ key.receiver ∈ others rank group then [values group rank] else [] := by
  have heard : posts key (hears tag rank (values group) (fun r => met rank r past) (others rank group)) = [] := by
    simp [posts, posted?, hears]
  have asked : posts key (asks tag rank (values group rank) (fun r => met rank r past) (others rank group)) =
      (others rank group).flatMap fun r => if (⟨rank, r, tag⟩ : MailKey) = key then [values group rank] else [] := by
    rw [posts, asks, List.filterMap_flatMap]
    refine congrArg (List.flatMap · _) (funext fun r => ?_)
    by_cases same : (⟨rank, r, tag⟩ : MailKey) = key <;> simp [List.filterMap_cons, posted?, same]
  rw [requests, posts_append, heard, List.append_nil, asked]
  refine read_ranks (distinct.filter _) (fun _ => values group rank) _ fun r => ?_
  cases key
  simp only [MailKey.mk.injEq]
  constructor
  · rintro ⟨rfl, rfl, rfl⟩
    exact ⟨⟨rfl, rfl⟩, rfl⟩
  · rintro ⟨⟨rfl, rfl⟩, rfl⟩
    exact ⟨rfl, rfl, rfl⟩

theorem claims_requests (distinct : group.Nodup) : Event.claims key (requests tag values rank past group) =
    if (key.receiver = rank ∧ key.tag = tag) ∧ key.sender ∈ others rank group then [met rank key.sender past] else [] := by
  have heard : Event.claims key (hears tag rank (values group) (fun r => met rank r past) (others rank group)) = [] := by
    simp [Event.claims, claimed?, hears]
  have asked : Event.claims key (asks tag rank (values group rank) (fun r => met rank r past) (others rank group)) =
      (others rank group).flatMap fun r => if (⟨r, rank, tag⟩ : MailKey) = key then [met rank r past] else [] := by
    rw [Event.claims, asks, List.filterMap_flatMap]
    refine congrArg (List.flatMap · _) (funext fun r => ?_)
    by_cases same : (⟨r, rank, tag⟩ : MailKey) = key <;> simp [List.filterMap_cons, claimed?, same]
  rw [requests, claims_append, heard, List.append_nil, asked]
  refine read_ranks (distinct.filter _) (fun r => met rank r past) _ fun r => ?_
  cases key
  simp only [MailKey.mk.injEq]
  constructor
  · rintro ⟨rfl, rfl, rfl⟩
    exact ⟨⟨rfl, rfl⟩, rfl⟩
  · rintro ⟨⟨rfl, rfl⟩, rfl⟩
    exact ⟨rfl, rfl, rfl⟩

theorem deliveries_requests (distinct : group.Nodup) : deliveries key (requests tag values rank past group) =
    if (key.receiver = rank ∧ key.tag = tag) ∧ key.sender ∈ others rank group then [(met rank key.sender past : Int)] else [] := by
  have asked : deliveries key (asks tag rank (values group rank) (fun r => met rank r past) (others rank group)) = [] := by
    simp [deliveries, List.filterMap_flatMap, delivered?, asks]
  have heard : deliveries key (hears tag rank (values group) (fun r => met rank r past) (others rank group)) =
      (others rank group).flatMap fun r => if (⟨r, rank, tag⟩ : MailKey) = key then [(met rank r past : Int)] else [] := by
    rw [deliveries, hears, List.map_eq_flatMap, List.filterMap_flatMap]
    refine congrArg (List.flatMap · _) (funext fun r => ?_)
    by_cases same : (⟨r, rank, tag⟩ : MailKey) = key <;> simp [delivered?, same]
  rw [requests, deliveries_append, asked, List.nil_append, heard]
  refine read_ranks (distinct.filter _) (fun r => (met rank r past : Int)) _ fun r => ?_
  cases key
  simp only [MailKey.mk.injEq]
  constructor
  · rintro ⟨rfl, rfl, rfl⟩
    exact ⟨⟨rfl, rfl⟩, rfl⟩
  · rintro ⟨⟨rfl, rfl⟩, rfl⟩
    exact ⟨rfl, rfl, rfl⟩

/-- What a rank posts in a meeting it posts before it receives anything. -/
theorem posts_opening {opening closing : List (Event μ)} {other : MailKey} {number : Int} {answer : Option μ}
    (split : requests tag values rank past group = opening ++ .receive other number answer :: closing) :
    posts key opening = posts key (requests tag values rank past group) := by
  have silent {events : List (Event μ)} (among : ∀ event ∈ events, event ∈
      hears tag rank (values group) (fun r => met rank r past) (others rank group)) : posts key events = [] := by
    refine List.filterMap_eq_nil_iff.mpr fun event member => ?_
    obtain ⟨r, -, rfl⟩ := List.mem_map.mp (among event member)
    rfl
  rw [requests, List.append_eq_append_iff] at split
  rw [requests, posts_append, silent fun _ member => member, List.append_nil]
  rcases split with ⟨heard, rfl, split⟩ | ⟨middle, split, whole⟩
  · rw [posts_append, silent fun event member => split ▸ List.mem_append_left _ member, List.append_nil]
  · cases middle with
    | nil => rw [split, List.append_nil]
    | cons head tail =>
      obtain ⟨rfl, -⟩ := List.cons_eq_cons.mp whole
      have asked : Event.receive other number answer ∈
          asks tag rank (values group rank) (fun r => met rank r past) (others rank group) :=
        split ▸ List.mem_append_right _ List.mem_cons_self
      simp [asks] at asked

end Reading

section Scripted

variable (key : MailKey) (distinct : ∀ g ∈ groups, g.Nodup)
include distinct

theorem posts_script : posts key (script tag values rank past groups) = if key.sender = rank ∧ key.tag = tag then
    (groups.filter fun g => key.receiver ∈ others rank g).map fun g => values g rank else [] := by
  induction groups generalizing past with
  | nil => simp [script, posts]
  | cons group rest ih =>
    rw [script, posts_append, posts_requests key (distinct group List.mem_cons_self),
      ih fun g later => distinct g (List.mem_cons_of_mem _ later)]
    by_cases own : key.sender = rank ∧ key.tag = tag <;> by_cases member : key.receiver ∈ others rank group <;>
      simp [own, member]

theorem claims_script : Event.claims key (script tag values rank past groups) = if key.receiver = rank ∧ key.tag = tag then
    List.range' (met rank key.sender past) (met rank key.sender groups) else [] := by
  induction groups generalizing past with
  | nil => simp [script, Event.claims, met]
  | cons group rest ih =>
    have split : met rank key.sender (group :: rest) = met rank key.sender [group] + met rank key.sender rest :=
      met_append [group] rest
    rw [script, claims_append, claims_requests key (distinct group List.mem_cons_self),
      ih fun g later => distinct g (List.mem_cons_of_mem _ later), split, met_append, met_singleton]
    by_cases own : key.receiver = rank ∧ key.tag = tag
    · simp only [own, true_and, ↓reduceIte]
      by_cases member : key.sender ∈ others rank group
      · simp only [member, ↓reduceIte, Nat.add_comm 1, List.range'_succ, List.singleton_append]
      · simp only [member, ↓reduceIte, Nat.add_zero, Nat.zero_add, List.nil_append]
    · simp [own]

theorem deliveries_script : deliveries key (script tag values rank past groups) =
    if key.receiver = rank ∧ key.tag = tag then
      (List.range' (met rank key.sender past) (met rank key.sender groups)).map Nat.cast else [] := by
  induction groups generalizing past with
  | nil => simp [script, deliveries, met]
  | cons group rest ih =>
    have split : met rank key.sender (group :: rest) = met rank key.sender [group] + met rank key.sender rest :=
      met_append [group] rest
    rw [script, deliveries_append, deliveries_requests key (distinct group List.mem_cons_self),
      ih fun g later => distinct g (List.mem_cons_of_mem _ later), split, met_append, met_singleton]
    by_cases own : key.receiver = rank ∧ key.tag = tag
    · simp only [own, true_and, ↓reduceIte]
      by_cases member : key.sender ∈ others rank group
      · simp only [member, ↓reduceIte, Nat.add_comm 1, List.range'_succ, List.map_cons, List.singleton_append]
      · simp only [member, ↓reduceIte, Nat.add_zero, Nat.zero_add, List.nil_append]
    · simp [own]

end Scripted

end Meeting

open Meeting

/-- Ranks that meet in groups, and all go through them in one order. -/
structure Meetings (count : Nat) (groupsOf : Nat → List (List Int)) (level : List Int → Nat) : Prop where
  distinct : ∀ i < count, ∀ g ∈ groupsOf i, g.Nodup
  own : ∀ i < count, ∀ g ∈ groupsOf i, (i : Int) ∈ g
  attended : ∀ i < count, ∀ g ∈ groupsOf i, ∀ r ∈ g, ∃ j < count, r = (j : Int) ∧ g ∈ groupsOf j
  rising : ∀ i < count, (groupsOf i).Pairwise fun g h => level g < level h

namespace Meetings

variable {count i j : Nat} {groupsOf : Nat → List (List Int)} {level : List Int → Nat} {tag : Int}
  {values : List Int → Int → μ}

/-- Two ranks meet in the same groups, and in the same order. -/
theorem common (meetings : Meetings count groupsOf level) (here : i < count) (there : j < count) :
    ((groupsOf i).filter fun g => (j : Int) ∈ others i g) = (groupsOf j).filter fun g => (i : Int) ∈ others j g := by
  have nodup (k : Nat) (inside : k < count) : (groupsOf k).Nodup :=
    (meetings.rising k inside).imp fun {g h} less (same : g = h) => Nat.lt_irrefl _ (same ▸ less)
  have both (a b : Nat) (inside : a < count) (within : b < count) (g : List Int)
      (member : g ∈ (groupsOf a).filter fun g => (b : Int) ∈ others a g) :
      g ∈ (groupsOf b).filter fun g => (a : Int) ∈ others b g := by
    obtain ⟨among, meets⟩ := List.mem_filter.mp member
    obtain ⟨inGroup, apart⟩ := mem_others.mp (of_decide_eq_true meets)
    obtain ⟨k, -, same, attends⟩ := meetings.attended a inside g among b inGroup
    obtain rfl : b = k := by exact_mod_cast same
    exact List.mem_filter.mpr ⟨attends, decide_eq_true (mem_others.mpr ⟨meetings.own a inside g among, apart.symm⟩)⟩
  have perm : ((groupsOf i).filter fun g => (j : Int) ∈ others i g).Perm
      ((groupsOf j).filter fun g => (i : Int) ∈ others j g) :=
    (List.perm_ext_iff_of_nodup ((nodup i here).filter _) ((nodup j there).filter _)).mpr fun g =>
      ⟨both i j here there g, both j i there here g⟩
  exact perm.eq_of_pairwise (fun g h _ _ less more => absurd less (Nat.lt_asymm more))
    ((meetings.rising i here).filter _) ((meetings.rising j there).filter _)

/-- The level of the group that a message belongs to. -/
def depth (groupsOf : Nat → List (List Int)) (level : List Int → Nat) (key : MailKey) (n : Nat) : Nat :=
  ((((groupsOf key.sender.toNat).filter fun g => key.receiver ∈ others key.sender g)[n]?).map level).getD 0

private theorem filter_split {first rest : List (List Int)} {group : List Int} {p : List Int → Bool} (holds : p group) :
    ((first ++ group :: rest).filter p)[(first.filter p).length]? = some group := by
  rw [List.filter_append, List.getElem?_append_right (Nat.le_refl _), Nat.sub_self, List.filter_cons_of_pos holds]
  rfl

section Depth

variable {first rest : List (List Int)} {group : List Int} (meetings : Meetings count groupsOf level) (inside : i < count)
include meetings inside

/-- What a rank hears in a group was sent in this group. -/
theorem depth_met (within : j < count) (whole : groupsOf i = first ++ group :: rest) (among : (j : Int) ∈ others i group) :
    depth groupsOf level ⟨j, i, tag⟩ (met i j first) = level group := by
  change ((((groupsOf (j : Int).toNat).filter fun g => (i : Int) ∈ others j g)[met i j first]?).map level).getD 0 = _
  rw [Int.toNat_natCast, ← meetings.common inside within, whole, met, filter_split (decide_eq_true among)]
  rfl

/-- What a rank sends after a group is of a higher level. -/
theorem lt_depth (whole : groupsOf i = first ++ group :: rest) {key : MailKey} (sender : key.sender = i) {n : Nat}
    (past : ((first ++ [group]).filter fun g => key.receiver ∈ others i g).length ≤ n)
    (late : n < ((groupsOf i).filter fun g => key.receiver ∈ others i g).length) :
    level group < depth groupsOf level key n := by
  obtain ⟨next, found⟩ : ∃ next, ((groupsOf i).filter fun g => key.receiver ∈ others i g)[n]? = some next :=
    ⟨_, List.getElem?_eq_getElem late⟩
  have rising := meetings.rising i inside
  have later := found
  rw [whole] at rising
  rw [whole, List.append_cons first group rest, List.filter_append, List.getElem?_append_right past] at later
  refine Nat.lt_of_lt_of_eq ((List.pairwise_cons.mp (List.pairwise_append.mp rising).2.1).1 next
    (List.mem_filter.mp (List.mem_of_getElem? later)).1) ?_
  rw [depth, sender, Int.toNat_natCast, found]
  rfl

end Depth

/-- Ranks that go through their meetings one after the other agree. -/
theorem agreement (meetings : Meetings count groupsOf level) (tag : Int) (values : List Int → Int → μ) :
    Agreement count (fun i => script tag values i [] (groupsOf i)) (depth groupsOf level) where
  sends i inside key message member := by
    obtain ⟨first, group, rest, -, here⟩ := mem_script member
    obtain ⟨r, -, kind⟩ := mem_requests.mp here
    simp only [reduceCtorEq, or_false, Event.post.injEq] at kind
    rw [kind.1]
  claims i inside key number member := by
    obtain ⟨first, group, rest, -, here⟩ := mem_script member
    obtain ⟨r, -, kind⟩ := mem_requests.mp here
    simp only [reduceCtorEq, false_or, or_false, Event.claim.injEq] at kind
    rw [kind.1]
  receives i inside key number answer member := by
    obtain ⟨first, group, rest, whole, here⟩ := mem_script member
    obtain ⟨r, among, kind⟩ := mem_requests.mp here
    simp only [reduceCtorEq, false_or, Event.receive.injEq, List.nil_append] at kind
    obtain ⟨rfl, rfl, rfl⟩ := kind
    obtain ⟨j, within, rfl, -⟩ := meetings.attended i inside group (by simp [whole]) r (mem_others.mp among).1
    refine ⟨rfl, j, within, met i j first, values group j, rfl, rfl, rfl, ?_⟩
    rw [posts_script _ (meetings.distinct j within), if_pos ⟨rfl, rfl⟩, List.getElem?_map,
      ← meetings.common inside within, whole, met, filter_split (decide_eq_true among)]
    rfl
  looks i inside sender receiver tags member := by
    obtain ⟨first, group, rest, -, here⟩ := mem_script member
    obtain ⟨r, -, kind⟩ := mem_requests.mp here
    simp at kind
  numbered i inside key := by
    rw [claims_script key (meetings.distinct i inside)]
    split
    · rw [List.length_range', List.range_eq_range']
      rfl
    · rfl
  once i inside key := by
    rw [deliveries_script key (meetings.distinct i inside)]
    split
    · exact (List.nodup_range' ..).map fun _ _ same => Int.natCast_inj.mp same
    · exact List.nodup_nil
  complete i inside key n less := by
    rw [posts_script key (meetings.distinct i inside)] at less
    split at less
    next mine =>
      rw [List.length_map] at less
      obtain ⟨group, member⟩ := List.exists_mem_of_length_pos (Nat.lt_of_le_of_lt (Nat.zero_le n) less)
      obtain ⟨among, meets⟩ := List.mem_filter.mp member
      obtain ⟨j, within, receiver, -⟩ :=
        meetings.attended i inside group among _ (mem_others.mp (of_decide_eq_true meets)).1
      refine ⟨j, within, receiver, ?_⟩
      rw [deliveries_script key (meetings.distinct j within), if_pos ⟨receiver, mine.2⟩, List.mem_map]
      refine ⟨n, List.mem_range'_1.mpr ⟨Nat.zero_le n, ?_⟩, rfl⟩
      rw [receiver, meetings.common inside within] at less
      rw [mine.1, met, met, List.filter_nil, List.length_nil, Nat.zero_add]
      exact less
    next => simp at less
  ordered i inside before after key number answer split other n early late := by
    obtain ⟨first, group, rest, opening, closing, whole, rfl, here'⟩ := script_split split
    rw [List.nil_append] at here'
    obtain ⟨r, among, kind⟩ := mem_requests.mp (here' ▸ List.mem_append_right _ List.mem_cons_self)
    simp only [reduceCtorEq, false_or, Event.receive.injEq] at kind
    obtain ⟨rfl, same, -⟩ := kind
    obtain rfl : number = met i r first := by exact_mod_cast same
    obtain ⟨j, within, rfl, -⟩ := meetings.attended i inside group (by simp [whole]) r (mem_others.mp among).1
    have distinct := meetings.distinct i inside
    rw [posts_append, posts_opening other here', posts_script other fun g member => distinct g (by simp [whole, member]),
      posts_requests other (distinct group (by simp [whole]))] at early
    rw [posts_script other distinct] at late
    rw [meetings.depth_met inside within whole among]
    by_cases mine : other.sender = i ∧ other.tag = tag
    · rw [if_pos mine, List.length_map] at late
      refine meetings.lt_depth inside whole mine.1 ?_ late
      rw [if_pos mine, List.length_append, List.length_map] at early
      rw [List.filter_append, List.length_append, List.filter_singleton]
      by_cases member : other.receiver ∈ others i group
      · simpa only [mine, member, and_self, ↓reduceIte, decide_true, cond_true, List.length_singleton] using early
      · simpa only [mine, member, and_false, ↓reduceIte, decide_false, cond_false, List.length_nil] using early
    · rw [if_neg mine] at late
      cases late

end Meetings

end HaloMesh.Transport
