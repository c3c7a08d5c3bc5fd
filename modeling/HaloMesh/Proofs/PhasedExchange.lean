import HaloMesh.Proofs.Interleaving

/-! Exchanges in phases. In each phase a rank sends one parcel to every partner and then receives one from
each. If the ranks agree about the parcels, and every phase has tags of its own, the exchange runs to its
end in every interleaving. -/

namespace HaloMesh.Transport
open Event

variable {μ β : Type}

/-- What passes between a rank and a partner in one phase, in both directions. -/
structure Parcel (μ : Type) where
  partner : Int
  sendTag : Int
  receiveTag : Int
  sent : μ
  received : μ

namespace Parcel

def sendKey (rank : Int) (p : Parcel μ) : MailKey := ⟨rank, p.partner, p.sendTag⟩

def receiveKey (rank : Int) (p : Parcel μ) : MailKey := ⟨p.partner, rank, p.receiveTag⟩

/-- The requests of a rank in one phase. No key is used before, so the first message of each is claimed. -/
def requests (rank : Int) (parcels : List (Parcel μ)) : List (Event μ) :=
  parcels.flatMap (fun p => [.post (p.sendKey rank) p.sent, .claim (p.receiveKey rank) 0]) ++
    parcels.map fun p => .receive (p.receiveKey rank) 0 (some p.received)

def script (rank : Int) (phases : List (List (Parcel μ))) : List (Event μ) := phases.flatMap (requests rank)

theorem mem_requests {rank : Int} {parcels : List (Parcel μ)} {event : Event μ} :
    event ∈ requests rank parcels ↔ ∃ p ∈ parcels, event = .post (p.sendKey rank) p.sent ∨
      event = .claim (p.receiveKey rank) 0 ∨ event = .receive (p.receiveKey rank) 0 (some p.received) := by
  simp only [requests, List.mem_append, List.mem_flatMap, List.mem_map, List.mem_cons, List.not_mem_nil, or_false]
  constructor
  · rintro (⟨p, member, first | second⟩ | ⟨p, member, rfl⟩)
    · exact ⟨p, member, .inl first⟩
    · exact ⟨p, member, .inr (.inl second)⟩
    · exact ⟨p, member, .inr (.inr rfl)⟩
  · intro holds
    obtain ⟨p, member, first | second | third⟩ := holds
    · exact .inl ⟨p, member, .inl first⟩
    · exact .inl ⟨p, member, .inr second⟩
    · exact .inr ⟨p, member, third.symm⟩

theorem mem_script {rank : Int} {phases : List (List (Parcel μ))} {event : Event μ} :
    event ∈ script rank phases ↔ ∃ p ∈ phases.flatten, event = .post (p.sendKey rank) p.sent ∨
      event = .claim (p.receiveKey rank) 0 ∨ event = .receive (p.receiveKey rank) 0 (some p.received) := by
  simp only [script, List.mem_flatMap, mem_requests, List.mem_flatten]
  constructor
  · intro holds
    obtain ⟨parcels, phase, p, member, kind⟩ := holds
    exact ⟨p, ⟨parcels, phase, member⟩, kind⟩
  · intro holds
    obtain ⟨p, ⟨parcels, phase, member⟩, kind⟩ := holds
    exact ⟨parcels, phase, p, member, kind⟩

section Reading

variable (key : MailKey) (rank : Int)

theorem posts_requests (parcels : List (Parcel μ)) :
    posts key (requests rank parcels) = (parcels.filter fun p => p.sendKey rank = key).map Parcel.sent := by
  have received : posts key (parcels.map fun p => Event.receive (p.receiveKey rank) 0 (some p.received)) = [] := by
    simp [posts, posted?]
  rw [requests, posts_append, received, List.append_nil, posts, List.filterMap_flatMap]
  clear received
  induction parcels with
  | nil => rfl
  | cons p rest ih =>
    rw [List.flatMap_cons, ih]
    by_cases same : p.sendKey rank = key <;> simp [List.filterMap_cons, posted?, same]

theorem claims_requests (parcels : List (Parcel μ)) :
    Event.claims key (requests rank parcels) = (parcels.filter fun p => p.receiveKey rank = key).map fun _ => 0 := by
  have received : Event.claims key (parcels.map fun p => Event.receive (p.receiveKey rank) 0 (some p.received)) = [] := by
    simp [Event.claims, claimed?]
  rw [requests, claims_append, received, List.append_nil, Event.claims, List.filterMap_flatMap]
  clear received
  induction parcels with
  | nil => rfl
  | cons p rest ih =>
    rw [List.flatMap_cons, ih]
    by_cases same : p.receiveKey rank = key <;> simp [List.filterMap_cons, claimed?, same]

theorem deliveries_requests (parcels : List (Parcel μ)) :
    deliveries key (requests rank parcels) = (parcels.filter fun p => p.receiveKey rank = key).map fun _ => 0 := by
  have asked : deliveries key
      (parcels.flatMap fun p => [Event.post (p.sendKey rank) p.sent, .claim (p.receiveKey rank) 0]) = [] := by
    simp [deliveries, List.filterMap_flatMap, delivered?]
  rw [requests, deliveries_append, asked, List.nil_append, deliveries, List.filterMap_map]
  clear asked
  induction parcels with
  | nil => rfl
  | cons p rest ih =>
    rw [List.filterMap_cons, ih]
    by_cases same : p.receiveKey rank = key <;> simp [delivered?, same]

private theorem read_script {γ : Type} (read : Event μ → Option γ) (chosen : Parcel μ → Bool) (value : Parcel μ → γ)
    (one : ∀ parcels, (requests rank parcels).filterMap read = (parcels.filter chosen).map value)
    (phases : List (List (Parcel μ))) :
    (script rank phases).filterMap read = (phases.flatten.filter chosen).map value := by
  induction phases with
  | nil => rfl
  | cons parcels rest ih =>
    rw [script, List.flatMap_cons, List.filterMap_append, one, List.flatten_cons, List.filter_append, List.map_append]
    exact congrArg _ ih

theorem posts_script (phases : List (List (Parcel μ))) :
    posts key (script rank phases) = (phases.flatten.filter fun p => p.sendKey rank = key).map Parcel.sent :=
  read_script rank _ _ _ (posts_requests key rank) phases

theorem claims_script (phases : List (List (Parcel μ))) :
    Event.claims key (script rank phases) = (phases.flatten.filter fun p => p.receiveKey rank = key).map fun _ => 0 :=
  read_script rank _ _ _ (claims_requests key rank) phases

theorem deliveries_script (phases : List (List (Parcel μ))) :
    deliveries key (script rank phases) = (phases.flatten.filter fun p => p.receiveKey rank = key).map fun _ => 0 :=
  read_script rank _ _ _ (deliveries_requests key rank) phases

end Reading

private theorem filter_eq_singleton {parcels : List (Parcel μ)} {tag : Parcel μ → Int} {chosen : Parcel μ → Bool}
    (tags : (parcels.map tag).Nodup) (same : ∀ p q, chosen p → chosen q → tag p = tag q) {p : Parcel μ}
    (member : p ∈ parcels) (holds : chosen p) : parcels.filter chosen = [p] := by
  induction parcels with
  | nil => cases member
  | cons q rest ih =>
    obtain ⟨fresh, distinct⟩ := List.nodup_cons.mp tags
    by_cases here : chosen q
    · -- a second one would have the tag of the first
      have none : rest.filter chosen = [] := List.filter_eq_nil_iff.mpr fun r later chosenToo =>
        fresh (List.mem_map.mpr ⟨r, later, same r q chosenToo here⟩)
      obtain rfl : p = q := (List.mem_cons.mp member).resolve_right fun later =>
        fresh (List.mem_map.mpr ⟨p, later, same p q holds here⟩)
      rw [List.filter_cons_of_pos here, none]
    · have later : p ∈ rest := (List.mem_cons.mp member).resolve_left fun equal => here (equal ▸ holds)
      rw [List.filter_cons_of_neg here, ih distinct later]

private theorem filter_length_le {parcels : List (Parcel μ)} {tag : Parcel μ → Int} {chosen : Parcel μ → Bool}
    (tags : (parcels.map tag).Nodup) (same : ∀ p q, chosen p → chosen q → tag p = tag q) :
    (parcels.filter chosen).length ≤ 1 := by
  cases found : parcels.filter chosen with
  | nil => simp
  | cons p rest =>
    have member : p ∈ parcels.filter chosen := by simp [found]
    obtain ⟨inside, holds⟩ := List.mem_filter.mp member
    rw [← found, filter_eq_singleton tags same inside holds]
    rfl

/-- Whatever a rank posts after a receive belongs to a later phase. -/
theorem script_ordered (rank : Int) {phases : List (List (Parcel μ))} {level : Int → Nat}
    (levels : phases.Pairwise fun early late => ∀ p ∈ early, ∀ q ∈ late, level p.receiveTag < level q.sendTag) :
    (script rank phases).Pairwise fun first second => ∀ key number answer other message,
      first = .receive key number answer → second = .post other message → level key.tag < level other.tag := by
  refine List.pairwise_flatMap.mpr ⟨fun parcels _ => List.pairwise_append.mpr ⟨?_, ?_, ?_⟩, ?_⟩
  · refine List.pairwise_of_forall_mem_list ?_
    intro first asked second _ key number answer other message same
    subst same
    simp at asked
  · refine List.pairwise_of_forall_mem_list ?_
    rintro first _ second received key number answer other message - rfl
    simp at received
  · intro first asked second _ key number answer other message same
    subst same
    simp at asked
  · refine levels.imp fun {early late} later => ?_
    intro first inEarly second inLate key number answer other message rfl same
    subst same
    obtain ⟨p, member, kind⟩ := mem_requests.mp inEarly
    obtain ⟨q, member', kind'⟩ := mem_requests.mp inLate
    have less := later p member q member'
    simp only [reduceCtorEq, false_or, Event.receive.injEq, Event.post.injEq, or_false] at kind kind'
    rw [kind.1, kind'.1]
    exact less

end Parcel

/-- Ranks that agree about their parcels. Each parcel that one rank receives in some phase is sent by its
partner, and the messages of a later phase have a higher level. -/
structure Coordinated (count : Nat) (phases : Nat → List (List (Parcel μ))) (level : Int → Nat) : Prop where
  sendTags : ∀ i < count, ((phases i).flatten.map Parcel.sendTag).Nodup
  receiveTags : ∀ i < count, ((phases i).flatten.map Parcel.receiveTag).Nodup
  levels : ∀ i < count, (phases i).Pairwise fun early late =>
    ∀ p ∈ early, ∀ q ∈ late, level p.receiveTag < level q.sendTag
  matched : ∀ i < count, ∀ p ∈ (phases i).flatten, ∃ j < count, p.partner = j ∧ ∃ q ∈ (phases j).flatten,
    q.partner = i ∧ q.sendTag = p.receiveTag ∧ q.receiveTag = p.sendTag ∧ q.sent = p.received

namespace Coordinated

variable {count : Nat} {phases : Nat → List (List (Parcel μ))} {level : Int → Nat}

open Parcel

private theorem sendTag_eq (rank : Int) (key : MailKey) (p q : Parcel μ) (first : decide (p.sendKey rank = key) = true)
    (second : decide (q.sendKey rank = key) = true) : p.sendTag = q.sendTag :=
  congrArg MailKey.tag ((of_decide_eq_true first).trans (of_decide_eq_true second).symm)

private theorem receiveTag_eq (rank : Int) (key : MailKey) (p q : Parcel μ)
    (first : decide (p.receiveKey rank = key) = true) (second : decide (q.receiveKey rank = key) = true) :
    p.receiveTag = q.receiveTag :=
  congrArg MailKey.tag ((of_decide_eq_true first).trans (of_decide_eq_true second).symm)

/-- The scripts of coordinated ranks fit together. -/
theorem agreement (coordinated : Coordinated count phases level) :
    Agreement count (fun i => script i (phases i)) (fun key _ => level key.tag) where
  sends i inside key message member := by
    obtain ⟨p, -, kind⟩ := mem_script.mp member
    simp only [reduceCtorEq, or_false, Event.post.injEq] at kind
    rw [kind.1]
    rfl
  claims i inside key number member := by
    obtain ⟨p, -, kind⟩ := mem_script.mp member
    simp only [reduceCtorEq, false_or, or_false, Event.claim.injEq] at kind
    rw [kind.1]
    rfl
  receives i inside key number answer member := by
    obtain ⟨p, among, kind⟩ := mem_script.mp member
    simp only [reduceCtorEq, false_or, Event.receive.injEq] at kind
    obtain ⟨rfl, rfl, rfl⟩ := kind
    obtain ⟨j, within, partner, q, amongj, back, tag, -, same⟩ := coordinated.matched i inside p among
    have key : q.sendKey j = p.receiveKey i := by simp [sendKey, receiveKey, back, tag, partner]
    refine ⟨rfl, j, within, 0, p.received, partner, rfl, rfl, ?_⟩
    rw [posts_script, filter_eq_singleton (coordinated.sendTags j within) (sendTag_eq j _) amongj (decide_eq_true key)]
    simp [same]
  looks i inside sender receiver tags member := by
    obtain ⟨p, -, kind⟩ := mem_script.mp member
    simp at kind
  numbered i inside key := by
    have few := filter_length_le (coordinated.receiveTags i inside) (receiveTag_eq i key)
    rw [claims_script]
    cases found : (phases i).flatten.filter fun p => p.receiveKey i = key with
    | nil => rfl
    | cons p rest =>
      rw [found] at few
      obtain rfl : rest = [] := List.eq_nil_of_length_eq_zero (by simpa using few)
      rfl
  once i inside key := by
    have few := filter_length_le (coordinated.receiveTags i inside) (receiveTag_eq i key)
    rw [deliveries_script]
    cases found : (phases i).flatten.filter fun p => p.receiveKey i = key with
    | nil => simp
    | cons p rest =>
      rw [found] at few
      obtain rfl : rest = [] := List.eq_nil_of_length_eq_zero (by simpa using few)
      simp
  complete i inside key n less := by
    have few := filter_length_le (coordinated.sendTags i inside) (sendTag_eq i key)
    rw [posts_script, List.length_map] at less
    obtain ⟨p, member⟩ := List.exists_mem_of_length_pos (Nat.lt_of_le_of_lt (Nat.zero_le n) less)
    obtain ⟨among, sends⟩ := List.mem_filter.mp member
    obtain ⟨j, within, partner, q, amongj, back, -, tag, -⟩ := coordinated.matched i inside p among
    have same : q.receiveKey j = key := by
      rw [← of_decide_eq_true sends]
      simp [sendKey, receiveKey, back, tag, partner]
    refine ⟨j, within, by rw [← same]; rfl, ?_⟩
    obtain rfl : n = 0 := by omega
    rw [deliveries_script, List.mem_map]
    exact ⟨q, List.mem_filter.mpr ⟨amongj, decide_eq_true same⟩, rfl⟩
  ordered i inside before after key number answer split other n early late := by
    have later := script_ordered i (coordinated.levels i inside)
    rw [split] at later late
    -- some message on the other key is posted only after the receive
    have remains : 0 < (posts other after).length := by
      rw [posts_append, List.length_append, ← List.singleton_append, posts_append, List.length_append] at late
      simp only [posts_singleton, posted?, Option.toList_none, List.length_nil] at late
      omega
    obtain ⟨message, posted⟩ := List.exists_mem_of_length_pos remains
    have follows := (List.pairwise_cons.mp (List.pairwise_append.mp later).2.1).1 _ (mem_posts.mp posted)
    exact follows key number answer other message rfl rfl

end Coordinated
end HaloMesh.Transport
