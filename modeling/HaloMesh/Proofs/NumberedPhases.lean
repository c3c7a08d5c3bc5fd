import HaloMesh.Proofs.PhasedExchange

/-! Phases that repeat and overlap. Ranks follow one plan, in which the messages of a phase are asked for at one
place and got at a later one, with other phases in between. Phases of one kind use the same keys, and are told
apart by the order in which they are asked for. If the ranks agree about the parcels of every phase, the plan runs
to its end in every interleaving. -/

namespace HaloMesh.Transport
open Event

variable {μ : Type}

/-- To send the parcels of a phase and claim the ones for them, or to receive what was claimed. A phase has a
kind and a number among the phases of its kind. -/
inductive Step where
  | ask (kind number : Nat)
  | get (kind number : Nat)
deriving DecidableEq

namespace Step

def asked? (kind : Nat) : Step → Option Nat
  | ask other number => if other = kind then some number else none
  | get .. => none

def got? (kind : Nat) : Step → Option Nat
  | ask .. => none
  | get other number => if other = kind then some number else none

/-- The phases of a kind in the order in which a plan asks for them. -/
def asks (kind : Nat) (plan : List Step) : List Nat := plan.filterMap (asked? kind)

def gets (kind : Nat) (plan : List Step) : List Nat := plan.filterMap (got? kind)

def events (rank : Int) (parcels : Nat → Nat → List (Parcel μ)) : Step → List (Event μ)
  | ask kind number => (parcels kind number).flatMap fun p =>
      [.post (p.sendKey rank) p.sent, .claim (p.receiveKey rank) number]
  | get kind number => (parcels kind number).map fun p => .receive (p.receiveKey rank) number (some p.received)

def script (rank : Int) (parcels : Nat → Nat → List (Parcel μ)) (plan : List Step) : List (Event μ) :=
  plan.flatMap (events rank parcels)

variable {plan : List Step} {kind number : Nat}

theorem mem_asks : number ∈ asks kind plan ↔ ask kind number ∈ plan := by
  have one (step : Step) : asked? kind step = some number ↔ step = ask kind number := by
    cases step <;> simp [asked?]
  simp only [asks, List.mem_filterMap, one, exists_eq_right]

theorem asks_append (first second : List Step) : asks kind (first ++ second) = asks kind first ++ asks kind second :=
  List.filterMap_append

@[simp] theorem asks_ask (other : Nat) : asks kind [ask other number] = if other = kind then [number] else [] := by
  by_cases same : other = kind <;> simp [asks, asked?, same]

@[simp] theorem asks_get (other : Nat) : asks kind [get other number] = [] := rfl

/-- A plan numbers the phases of each kind as it asks for them, and gets each of them once and after that. -/
structure Orderly (plan : List Step) : Prop where
  numbered : ∀ kind, asks kind plan = List.range (asks kind plan).length
  once : plan.Nodup
  later : ∀ first rest kind number, plan = first ++ get kind number :: rest → ask kind number ∈ first

theorem orderly_nil : Orderly [] := ⟨fun _ => rfl, List.nodup_nil, fun first => by cases first <;> simp⟩

private theorem split_last {first rest : List Step} {step last : Step} (same : plan ++ [last] = first ++ step :: rest) :
    plan = first ∧ last = step ∨ ∃ rest', plan = first ++ step :: rest' := by
  rcases List.eq_nil_or_concat rest with rfl | ⟨rest', other, rfl⟩
  · obtain ⟨whole, final⟩ := List.append_inj' same rfl
    exact .inl ⟨whole, by simpa using final⟩
  · rw [List.concat_eq_append, ← List.cons_append, ← List.append_assoc] at same
    exact .inr ⟨rest', (List.append_inj' same rfl).1⟩

/-- A plan may ask for the next phase of a kind. -/
theorem Orderly.ask (orderly : Orderly plan) (kind : Nat) : Orderly (plan ++ [.ask kind (asks kind plan).length]) where
  numbered other := by
    rw [asks_append, asks_ask]
    by_cases same : kind = other
    · subst same
      rw [if_pos rfl, List.length_append, List.length_singleton, List.range_succ, ← orderly.numbered]
    · rw [if_neg same, List.append_nil]
      exact orderly.numbered other
  once := by
    have fresh : Step.ask kind (asks kind plan).length ∉ plan := by
      rw [← mem_asks, orderly.numbered kind]
      simp
    exact List.nodup_append.mpr ⟨orderly.once, List.nodup_singleton _, by grind⟩
  later first rest other number same := by
    rcases split_last same with ⟨-, impossible⟩ | ⟨rest', whole⟩
    · cases impossible
    · exact orderly.later first rest' other number whole

/-- A plan may get what it has asked for. -/
theorem Orderly.get (orderly : Orderly plan) (asked : .ask kind number ∈ plan) (waiting : .get kind number ∉ plan) :
    Orderly (plan ++ [.get kind number]) where
  numbered other := by
    rw [asks_append, asks_get, List.append_nil]
    exact orderly.numbered other
  once := List.nodup_append.mpr ⟨orderly.once, List.nodup_singleton _, by grind⟩
  later first rest other number' same := by
    rcases split_last same with ⟨rfl, here⟩ | ⟨rest', whole⟩
    · cases here
      exact asked
    · exact orderly.later first rest' other number' whole

theorem Orderly.asked (orderly : Orderly plan) : .ask kind number ∈ plan ↔ number < (asks kind plan).length := by
  rw [← mem_asks, orderly.numbered kind, List.mem_range, List.length_range]

theorem Orderly.asked_of_got (orderly : Orderly plan) (got : .get kind number ∈ plan) : .ask kind number ∈ plan := by
  obtain ⟨first, rest, split⟩ := List.append_of_mem got
  rw [split]
  exact List.mem_append_left _ (orderly.later first rest kind number split)

/-- A phase that was asked for and not yet got. -/
def Underway (plan : List Step) (kind number : Nat) : Prop := .ask kind number ∈ plan ∧ .get kind number ∉ plan

theorem Orderly.underway_ask (orderly : Orderly plan) (kind other number : Nat) :
    Underway (plan ++ [.ask kind (asks kind plan).length]) other number ↔
      Underway plan other number ∨ other = kind ∧ number = (asks kind plan).length := by
  have fresh : .get kind (asks kind plan).length ∉ plan := fun got =>
    Nat.lt_irrefl _ (orderly.asked.mp (orderly.asked_of_got got))
  simp only [Underway, List.mem_append, List.mem_singleton, Step.ask.injEq, reduceCtorEq, or_false, or_and_right]
  constructor
  · rintro (waiting | ⟨new, -⟩)
    · exact .inl waiting
    · exact .inr new
  · rintro (waiting | ⟨rfl, rfl⟩)
    · exact .inl waiting
    · exact .inr ⟨⟨rfl, rfl⟩, fresh⟩

theorem underway_get (kind number other k : Nat) : Underway (plan ++ [.get kind number]) other k ↔
    Underway plan other k ∧ ¬ (other = kind ∧ k = number) := by
  simp only [Underway, List.mem_append, List.mem_singleton, Step.get.injEq, reduceCtorEq, or_false, not_or, and_assoc]

theorem Orderly.nodup_gets (orderly : Orderly plan) : (gets kind plan).Nodup := by
  apply orderly.once.filterMap
  intro first second number here there
  cases first <;> cases second <;> grind [got?]

theorem Orderly.asks_prefix (orderly : Orderly plan) {first rest : List Step} (split : plan = first ++ rest) :
    asks kind first = List.range (asks kind first).length := by
  have whole := orderly.numbered kind
  rw [split, asks_append, List.length_append] at whole
  have start := congrArg (List.take (asks kind first).length) whole
  rwa [List.take_left', List.take_range, Nat.min_eq_left (Nat.le_add_right ..)] at start
  rfl

/-- Only phases of the kind of a tag use it. -/
def Sorted (kindOf : Int → Nat) (parcels : Nat → Nat → List (Parcel μ)) : Prop :=
  ∀ kind number, ∀ p ∈ parcels kind number, kindOf p.sendTag = kind ∧ kindOf p.receiveTag = kind

section Reading

variable {kindOf : Int → Nat} {parcels : Nat → Nat → List (Parcel μ)} (sorted : Sorted kindOf parcels) (key : MailKey)
  (rank : Int)

private theorem read_script {γ : Type} (read : Event μ → Option γ) (phase? : Step → Option Nat) (values : Nat → List γ)
    (one : ∀ step, (events rank parcels step).filterMap read = (phase? step).toList.flatMap values) (plan : List Step) :
    (script rank parcels plan).filterMap read = (plan.filterMap phase?).flatMap values := by
  induction plan with
  | nil => rfl
  | cons step rest ih =>
    rw [script, List.flatMap_cons, List.filterMap_append, one, List.filterMap_cons]
    change _ ++ (script rank parcels rest).filterMap read = _
    rw [ih]
    cases phase? step <;> simp

private theorem filter_foreign {parcels : List (Parcel μ)} {keyOf : Parcel μ → MailKey} {tag : Parcel μ → Int}
    {key : MailKey} {kind : Nat} (own : ∀ p ∈ parcels, kindOf (tag p) = kind) (tagged : ∀ p, (keyOf p).tag = tag p)
    (foreign : kind ≠ kindOf key.tag) : parcels.filter (fun p => keyOf p = key) = [] := by
  apply List.filter_eq_nil_iff.mpr
  intro p member holds
  apply foreign
  rw [← own p member, ← of_decide_eq_true holds, tagged]

include sorted

theorem posts_script (plan : List Step) : posts key (script rank parcels plan) =
    (asks (kindOf key.tag) plan).flatMap fun number =>
      ((parcels (kindOf key.tag) number).filter fun p => p.sendKey rank = key).map Parcel.sent := by
  refine read_script rank _ _ _ (fun step => ?_) plan
  cases step with
  | get kind number => simp [events, posted?, asked?]
  | ask kind number =>
    have sent : (events rank parcels (ask kind number)).filterMap (posted? key) =
        ((parcels kind number).filter fun p => p.sendKey rank = key).map Parcel.sent := by
      rw [events, List.filterMap_flatMap]
      induction parcels kind number with
      | nil => rfl
      | cons p rest ih =>
        rw [List.flatMap_cons, ih]
        by_cases same : p.sendKey rank = key <;> simp [List.filterMap_cons, posted?, same]
    rw [sent]
    by_cases same : kind = kindOf key.tag
    · simp [asked?, same]
    · have none_ : (parcels kind number).filter (fun p => p.sendKey rank = key) = [] :=
        filter_foreign (fun p member => (sorted kind number p member).1) (fun _ => rfl) same
      simp [asked?, same, none_]

theorem claims_script (plan : List Step) : Event.claims key (script rank parcels plan) =
    (asks (kindOf key.tag) plan).flatMap fun number =>
      ((parcels (kindOf key.tag) number).filter fun p => p.receiveKey rank = key).map fun _ => number := by
  refine read_script rank _ _ _ (fun step => ?_) plan
  cases step with
  | get kind number => simp [events, claimed?, asked?]
  | ask kind number =>
    have claimed : (events rank parcels (ask kind number)).filterMap (claimed? key) =
        ((parcels kind number).filter fun p => p.receiveKey rank = key).map fun _ => number := by
      rw [events, List.filterMap_flatMap]
      induction parcels kind number with
      | nil => rfl
      | cons p rest ih =>
        rw [List.flatMap_cons, ih]
        by_cases same : p.receiveKey rank = key <;> simp [List.filterMap_cons, claimed?, same]
    rw [claimed]
    by_cases same : kind = kindOf key.tag
    · simp [asked?, same]
    · have none_ : (parcels kind number).filter (fun p => p.receiveKey rank = key) = [] :=
        filter_foreign (fun p member => (sorted kind number p member).2) (fun _ => rfl) same
      simp [asked?, same, none_]

theorem deliveries_script (plan : List Step) : deliveries key (script rank parcels plan) =
    (gets (kindOf key.tag) plan).flatMap fun number =>
      ((parcels (kindOf key.tag) number).filter fun p => p.receiveKey rank = key).map fun _ => (number : Int) := by
  refine read_script rank _ _ _ (fun step => ?_) plan
  cases step with
  | ask kind number => simp [events, List.filterMap_flatMap, delivered?, got?]
  | get kind number =>
    have delivered : (events rank parcels (get kind number)).filterMap (delivered? key) =
        ((parcels kind number).filter fun p => p.receiveKey rank = key).map fun _ => (number : Int) := by
      rw [events, List.filterMap_map]
      induction parcels kind number with
      | nil => rfl
      | cons p rest ih =>
        rw [List.filterMap_cons, ih]
        by_cases same : p.receiveKey rank = key <;> simp [delivered?, same]
    rw [delivered]
    by_cases same : kind = kindOf key.tag
    · simp [got?, same]
    · have none_ : (parcels kind number).filter (fun p => p.receiveKey rank = key) = [] :=
        filter_foreign (fun p member => (sorted kind number p member).2) (fun _ => rfl) same
      simp [got?, same, none_]

end Reading

/-- Where an event of a script stands in the plan. -/
theorem script_split {rank : Int} {parcels : Nat → Nat → List (Parcel μ)} {before after : List (Event μ)}
    {event : Event μ} (split : script rank parcels plan = before ++ event :: after) :
    ∃ first step rest early, plan = first ++ step :: rest ∧ event ∈ events rank parcels step ∧
      before = script rank parcels first ++ early := by
  induction plan generalizing before with
  | nil => simp [script] at split
  | cons step rest ih =>
    rw [script, List.flatMap_cons] at split
    rcases List.append_eq_append_iff.mp split with ⟨middle, rfl, later⟩ | ⟨middle, here, later⟩
    · obtain ⟨first, found, rest', early, rfl, member, rfl⟩ := ih later
      exact ⟨step :: first, found, rest', early, rfl, member, by simp [script]⟩
    · cases middle with
      | nil =>
        obtain ⟨first, found, rest', early, rfl, member, empty⟩ := @ih [] later.symm
        obtain ⟨nothing, rfl⟩ := List.append_eq_nil_iff.mp empty.symm
        refine ⟨step :: first, found, rest', [], rfl, member, ?_⟩
        rw [List.append_nil] at here
        rw [List.append_nil, ← here, script, List.flatMap_cons]
        change _ = _ ++ script rank parcels first
        rw [nothing, List.append_nil]
      | cons found middle =>
        obtain rfl : event = found := (List.cons.inj later).1
        exact ⟨[], step, rest, before, rfl, by simp [here], rfl⟩

theorem mem_script {rank : Int} {parcels : Nat → Nat → List (Parcel μ)} {event : Event μ} :
    event ∈ script rank parcels plan ↔ ∃ step ∈ plan, event ∈ events rank parcels step := List.mem_flatMap

end Step

namespace Parcel

/-- Whom a parcel is exchanged with, and under which tags. -/
def route (p : Parcel μ) : Int × Int × Int := (p.partner, p.sendTag, p.receiveTag)

/-- Among phases that go the same ways, a key is used once in each or in none. -/
theorem each_or_none {phases : Nat → List (Parcel μ)} {keyOf : Parcel μ → MailKey} (key : MailKey)
    (uniform : ∀ n, (phases n).map keyOf = (phases 0).map keyOf) (distinct : ((phases 0).map keyOf).Nodup) :
    (∃ p : Nat → Parcel μ, ∀ n, (phases n).filter (fun q => keyOf q = key) = [p n]) ∨
      ∀ n, (phases n).filter (fun q => keyOf q = key) = [] := by
  have count (n : Nat) : ((phases n).filter fun q => keyOf q = key).length = ((phases 0).map keyOf).count key := by
    rw [← uniform n, List.count_eq_countP, List.countP_map, List.countP_eq_length_filter]
    rfl
  have few := List.nodup_iff_count_le_one.mp distinct key
  by_cases used : ((phases 0).map keyOf).count key = 0
  · exact .inr fun n => List.eq_nil_of_length_eq_zero ((count n).trans used)
  · have one (n : Nat) : ∃ p, (phases n).filter (fun q => keyOf q = key) = [p] :=
      List.length_eq_one_iff.mp ((count n).trans (by omega))
    choose p found using one
    exact .inl ⟨p, found⟩

end Parcel

/-- Ranks with one plan that agree about the parcels of every phase. Phases of one kind go the same ways. -/
structure Planned (count : Nat) (plan : List Step) (parcels : Nat → Nat → Nat → List (Parcel μ)) (kindOf : Int → Nat) :
    Prop where
  orderly : Step.Orderly plan
  answered : ∀ kind number, .ask kind number ∈ plan → .get kind number ∈ plan
  sorted : ∀ i < count, Step.Sorted kindOf (parcels i)
  uniform : ∀ i < count, ∀ kind number, (parcels i kind number).map Parcel.route = (parcels i kind 0).map Parcel.route
  sendTags : ∀ i < count, ∀ kind, ((parcels i kind 0).map Parcel.sendTag).Nodup
  receiveTags : ∀ i < count, ∀ kind, ((parcels i kind 0).map Parcel.receiveTag).Nodup
  matched : ∀ i < count, ∀ kind number, .ask kind number ∈ plan → ∀ p ∈ parcels i kind number, ∃ j < count,
    p.partner = j ∧ ∃ q ∈ parcels j kind number,
      q.partner = i ∧ q.sendTag = p.receiveTag ∧ q.receiveTag = p.sendTag ∧ q.sent = p.received

namespace Planned
open Step Parcel

variable {count : Nat} {plan : List Step} {parcels : Nat → Nat → Nat → List (Parcel μ)} {kindOf : Int → Nat} {i : Nat}

private theorem each_or_none_of_tag (planned : Planned count plan parcels kindOf) (inside : i < count) (kind : Nat)
    (key : MailKey) (keyOf : Parcel μ → MailKey) (ofRoute : Int × Int × Int → MailKey)
    (routed : ∀ p, keyOf p = ofRoute p.route) {tag : Parcel μ → Int} (tagged : ∀ p, (keyOf p).tag = tag p)
    (tags : ((parcels i kind 0).map tag).Nodup) :
    (∃ p : Nat → Parcel μ, ∀ n, (parcels i kind n).filter (fun q => keyOf q = key) = [p n]) ∨
      ∀ n, (parcels i kind n).filter (fun q => keyOf q = key) = [] := by
  apply each_or_none
  · intro n
    have keys (n : Nat) : (parcels i kind n).map keyOf = ((parcels i kind n).map route).map ofRoute := by
      rw [List.map_map]
      exact List.map_congr_left fun p _ => routed p
    rw [keys, keys, planned.uniform i inside]
  · apply List.Nodup.of_map MailKey.tag
    rw [List.map_map]
    exact (List.map_congr_left fun p _ => tagged p : _ = (parcels i kind 0).map tag) ▸ tags

/-- A rank posts to a key once in every phase that it asks for, or never. -/
theorem posts_each (planned : Planned count plan parcels kindOf) (inside : i < count) (key : MailKey) :
    (∃ p : Nat → Parcel μ, (∀ n, (parcels i (kindOf key.tag) n).filter (fun q => q.sendKey i = key) = [p n]) ∧
      ∀ part, posts key (script i (parcels i) part) = (asks (kindOf key.tag) part).map fun n => (p n).sent) ∨
    (∀ n, (parcels i (kindOf key.tag) n).filter (fun q => q.sendKey i = key) = []) ∧
      ∀ part, posts key (script i (parcels i) part) = [] := by
  have read (part : List Step) := posts_script (planned.sorted i inside) key i part
  rcases planned.each_or_none_of_tag inside (kindOf key.tag) key (sendKey i) (fun r => ⟨i, r.1, r.2.1⟩)
    (fun _ => rfl) (fun _ => rfl) (planned.sendTags i inside _) with ⟨p, each⟩ | none_
  · refine .inl ⟨p, each, fun part => ?_⟩
    simp only [read, each, List.map_singleton]
    exact List.map_eq_flatMap.symm
  · refine .inr ⟨none_, fun part => ?_⟩
    simp only [read, none_, List.map_nil, List.flatMap_eq_nil_iff, implies_true]

/-- A rank claims and receives from a key once in every phase, or never. -/
theorem claims_each (planned : Planned count plan parcels kindOf) (inside : i < count) (key : MailKey) :
    (Event.claims key (script i (parcels i) plan) = asks (kindOf key.tag) plan ∧
      deliveries key (script i (parcels i) plan) = (gets (kindOf key.tag) plan).map fun n : Nat => (n : Int)) ∨
    (Event.claims key (script i (parcels i) plan) = [] ∧ deliveries key (script i (parcels i) plan) = []) := by
  have claimed := claims_script (planned.sorted i inside) key i plan
  have delivered := deliveries_script (planned.sorted i inside) key i plan
  rcases planned.each_or_none_of_tag inside (kindOf key.tag) key (receiveKey i) (fun r => ⟨r.1, i, r.2.2⟩)
    (fun _ => rfl) (fun _ => rfl) (planned.receiveTags i inside _) with ⟨p, each⟩ | none_
  · refine .inl ⟨?_, ?_⟩
    · simp only [claimed, each, List.map_singleton, List.flatMap_singleton']
    · simp only [delivered, each, List.map_singleton]
      exact List.map_eq_flatMap.symm
  · refine .inr ⟨?_, ?_⟩
    · simp only [claimed, none_, List.map_nil, List.flatMap_eq_nil_iff, implies_true]
    · simp only [delivered, none_, List.map_nil, List.flatMap_eq_nil_iff, implies_true]

theorem posted_of_asked (planned : Planned count plan parcels kindOf) (inside : i < count) {kind number : Nat}
    (asked : .ask kind number ∈ plan) {p : Parcel μ} (member : p ∈ parcels i kind number) :
    (posts (p.sendKey i) (script i (parcels i) plan))[number]? = some p.sent := by
  obtain rfl : kindOf p.sendTag = kind := (planned.sorted i inside kind number p member).1
  have sent : p ∈ (parcels i (kindOf (p.sendKey i).tag) number).filter fun q => q.sendKey i = p.sendKey i :=
    List.mem_filter.mpr ⟨member, decide_eq_true rfl⟩
  have less : number < (asks (kindOf (p.sendKey i).tag) plan).length := planned.orderly.asked.mp asked
  rcases planned.posts_each inside (p.sendKey i) with ⟨q, each, read⟩ | ⟨none_, -⟩
  · obtain rfl : p = q number := by
      rw [each] at sent
      exact List.mem_singleton.mp sent
    rw [read, List.getElem?_map, planned.orderly.numbered, List.getElem?_range less]
    rfl
  · rw [none_] at sent
    cases sent

/-- The scripts of ranks with one plan fit together. A message is as deep as its phase stands in the plan. -/
theorem agreement (planned : Planned count plan parcels kindOf) :
    Agreement count (fun i => script i (parcels i) plan) fun key n => plan.idxOf (.ask (kindOf key.tag) n) where
  sends i inside key message member := by
    obtain ⟨step, -, among⟩ := mem_script.mp member
    cases step <;> simp only [events, List.mem_flatMap, List.mem_map, List.mem_cons, reduceCtorEq, Event.post.injEq,
      List.not_mem_nil, or_false, and_false, exists_false] at among
    obtain ⟨p, -, rfl, -⟩ := among
    rfl
  claims i inside key number member := by
    obtain ⟨step, -, among⟩ := mem_script.mp member
    cases step <;> simp only [events, List.mem_flatMap, List.mem_map, List.mem_cons, reduceCtorEq, Event.claim.injEq,
      List.not_mem_nil, or_false, false_or, and_false, exists_false] at among
    obtain ⟨p, -, rfl, -⟩ := among
    rfl
  receives i inside key number answer member := by
    obtain ⟨step, stands, among⟩ := mem_script.mp member
    cases step with
    | ask kind n => simp [events] at among
    | get kind n =>
      obtain ⟨p, own, same⟩ := List.mem_map.mp among
      cases same
      have asked := planned.orderly.asked_of_got stands
      obtain ⟨j, within, partner, q, there, back, tag, -, message⟩ := planned.matched i inside kind n asked p own
      have same : q.sendKey j = p.receiveKey i := by simp [sendKey, receiveKey, back, tag, partner]
      refine ⟨rfl, j, within, n, p.received, partner, rfl, rfl, ?_⟩
      rw [← same, planned.posted_of_asked within asked there, message]
  looks i inside sender receiver tags member := by
    obtain ⟨step, -, among⟩ := mem_script.mp member
    cases step <;> simp [events] at among
  numbered i inside key := by
    rcases planned.claims_each inside key with ⟨claimed, -⟩ | ⟨claimed, -⟩
    · rw [claimed]
      exact planned.orderly.numbered _
    · rw [claimed]
      rfl
  once i inside key := by
    rcases planned.claims_each inside key with ⟨-, delivered⟩ | ⟨-, delivered⟩
    · rw [delivered]
      exact planned.orderly.nodup_gets.map fun _ _ same => Int.natCast_inj.mp same
    · rw [delivered]
      exact List.nodup_nil
  complete i inside key n less := by
    rcases planned.posts_each inside key with ⟨p, each, read⟩ | ⟨-, read⟩
    · rw [read, List.length_map, ← planned.orderly.asked] at less
      have own : p n ∈ (parcels i (kindOf key.tag) n).filter fun q => q.sendKey i = key := by simp [each]
      obtain ⟨member, sends⟩ := List.mem_filter.mp own
      obtain ⟨j, within, partner, q, there, back, -, tag, -⟩ := planned.matched i inside _ n less _ member
      have same : q.receiveKey j = key := by
        rw [← of_decide_eq_true sends]
        simp [sendKey, receiveKey, back, tag, partner]
      refine ⟨j, within, by rw [← same]; rfl, ?_⟩
      rw [← same]
      apply mem_deliveries.mpr
      exact ⟨q.received, mem_script.mpr ⟨_, planned.answered _ _ less, List.mem_map.mpr ⟨q, there, rfl⟩⟩⟩
    · rw [read] at less
      cases less
  ordered i inside before after key number answer split other n early late := by
    obtain ⟨first, step, rest, middle, whole, among, rfl⟩ := script_split split
    cases step with
    | ask kind n => simp [events] at among
    | get kind k =>
      obtain ⟨p, own, same⟩ := List.mem_map.mp among
      obtain ⟨rfl, same, -⟩ := Event.receive.inj same
      obtain rfl : k = number := by omega
      have sort : kindOf (p.receiveKey i).tag = kind := (planned.sorted i inside kind k p own).2
      have asked := planned.orderly.later first rest kind k whole
      -- the phase of the other message is asked for after this place of the plan
      have later : .ask (kindOf other.tag) n ∉ first := by
        rcases planned.posts_each inside other with ⟨q, -, read⟩ | ⟨-, read⟩
        · rw [posts_append, List.length_append, read, List.length_map] at early
          rw [← mem_asks, planned.orderly.asks_prefix whole, List.mem_range]
          omega
        · rw [read] at late
          cases late
      rw [sort, whole, List.idxOf_append_of_mem asked, List.idxOf_append_of_notMem later]
      have before := List.idxOf_lt_length_of_mem asked
      omega

end Planned

end HaloMesh.Transport
