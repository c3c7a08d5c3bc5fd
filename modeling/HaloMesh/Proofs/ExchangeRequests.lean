import HaloMesh.Proofs.HaloSides
import HaloMesh.Proofs.StoredFields

/-! What an exchange asks of the mail, however it ends. It posts and claims on every side in x that has a rank
across. On the sides in y it does so only if all that it claimed in x has come. -/

namespace HaloMesh
open Transport Program

variable {α : Type}

namespace Transport

/-- A wait for a message, or a look at what is there instead. -/
def Event.waits {μ : Type} : Event μ → Bool
  | .receive .. | .pending .. => true
  | .post .. | .claim .. => false

variable {μ : Type} {events : List (Event μ)}

theorem Event.posts_of_waits (waits : ∀ event ∈ events, event.waits = true) (key : MailKey) :
    Event.posts key events = [] := by
  apply List.filterMap_eq_nil_iff.mpr
  intro event member
  have known := waits event member
  cases event with
  | receive | pending => rfl
  | post | claim => cases known

theorem Event.claims_of_waits (waits : ∀ event ∈ events, event.waits = true) (key : MailKey) :
    Event.claims key events = [] := by
  apply List.filterMap_eq_nil_iff.mpr
  intro event member
  have known := waits event member
  cases event with
  | receive | pending => rfl
  | post | claim => cases known

end Transport

theorem wait_waits {r : Request α} {events : List (Event (Array α))} {b : Request α × Option Error}
    (path : Path r.wait events (.finished b)) : ∀ event ∈ events, event.waits = true := by
  unfold Request.wait at path
  split at path
  · obtain ⟨rfl, -⟩ := path.finished_eq
    simp
  · dsimp only at path
    split at path
    · obtain ⟨rfl, -⟩ := path.finished_eq
      simp
    · obtain ⟨rfl, -⟩ := path.finished_eq
      simp
    · cases path with
      | receive answer path =>
        cases answer with
        | none =>
          cases path with
          | pending tags path =>
            obtain ⟨rfl, -⟩ := path.finished_eq
            simp [Event.waits]
        | some message =>
          change Path (if _ then _ else _) _ _ at path
          split at path <;> obtain ⟨rfl, -⟩ := path.finished_eq <;> simp [Event.waits]

theorem waitEach_waits {requests : List (Request α)} {events : List (Event (Array α))}
    {b : List (Request α) × List Error} (path : Path (waitEach requests) events (.finished b)) :
    ∀ event ∈ events, event.waits = true := by
  induction requests generalizing events b with
  | nil =>
    obtain ⟨rfl, -⟩ := path.finished_eq
    simp
  | cons r rest ih =>
    obtain ⟨first, tail, ⟨r', e⟩, rfl, waited, path⟩ := path.of_bind_finished
    obtain ⟨second, last, ⟨done, errors⟩, rfl, later, path⟩ := path.of_bind_finished
    obtain ⟨rfl, -⟩ := path.finished_eq
    rw [List.append_nil, List.forall_mem_append]
    exact ⟨wait_waits waited, ih later⟩

variable [Scalar α]

namespace Mesh

variable {m : Mesh α} {fields : List (Field α)} {events : List (Event (Array α))}

theorem complete_waits {ex : Exchange α} {result : Except Error (Exchange α)}
    (path : Path (m.complete ex) events (.finished result)) : ∀ event ∈ events, event.waits = true := by
  obtain ⟨first, second, ⟨done, errors⟩, rfl, waited, path⟩ := path.of_bind_finished
  have ends : second = [] := by
    dsimp only at path
    split at path <;> exact path.finished_eq.1
  rw [ends, List.append_nil]
  exact waitEach_waits waited

omit [Scalar α] in
theorem closing_waits {ex : Exchange α} {result : Except Error (List (Field α))}
    (path : Path (closing ex) events (.finished result)) : ∀ event ∈ events, event.waits = true := by
  obtain ⟨first, second, ⟨done, errors⟩, rfl, waited, path⟩ := path.of_bind_finished
  have ends : second = [] := by
    dsimp only at path
    split at path <;> exact path.finished_eq.1
  rw [ends, List.append_nil]
  exact waitEach_waits waited

theorem secondPhase_asks (reaches : m.Reaches m.yLegs) {ex : Exchange α} {result : Except Error (List (Field α))}
    (path : Path (m.secondPhase ex) events (.finished result)) :
    ∃ (reached : Bool) (second : List Posted) (rest : List (Event (Array α))),
      second.map (fun t => (t.leg, t.neighbour)) = talking (if reached then m.yLegs else []) ∧
      events = second.flatMap (Posted.events m.rank ex.staged) ++ rest ∧ ∀ event ∈ rest, event.waits = true := by
  obtain ⟨phase, close, found, rfl, path, closed⟩ := path.of_bind_finished
  have last : ∀ event ∈ close, event.waits = true := by
    cases found with
    | error e =>
      obtain ⟨rfl, -⟩ := closed.finished_eq
      simp
    | ok ex => exact closing_waits closed
  split at path
  · obtain ⟨rfl, -⟩ := path.finished_eq
    exact ⟨false, [], close, rfl, rfl, last⟩
  · obtain ⟨first, second, ex', rfl, posts, path⟩ := path.of_bind_finished
    obtain ⟨posted, sides, rfl, rfl⟩ := (postLegs_path reaches _ _).mp posts
    refine ⟨true, posted, second ++ close, sides, List.append_assoc .., ?_⟩
    rw [List.forall_mem_append]
    exact ⟨complete_waits path, last⟩

/-- An exchange asks nothing but waits apart from the posts and claims of its phases. -/
theorem exchange_asks (reaches : ∀ sides : List Side, m.Reaches (sides.map m.leg))
    (shaped : ∀ f ∈ fields, f.extents = m.extents) {result : Except Error (List (Field α))}
    (path : Path (m.exchange fields false) events (.finished result)) :
    ∃ (first second : List Posted) (staged : List (Field α)) (reached : Bool),
      first.map (fun t => (t.leg, t.neighbour)) = talking m.xLegs ∧
      second.map (fun t => (t.leg, t.neighbour)) = talking (if reached then m.yLegs else []) ∧
      ∀ key, Event.posts key events = Event.posts key (first.flatMap (Posted.events m.rank fields) ++
          second.flatMap (Posted.events m.rank staged)) ∧
        Event.claims key events = Event.claims key (first.flatMap (Posted.events m.rank fields) ++
          second.flatMap (Posted.events m.rank staged)) := by
  have reachesX : m.Reaches m.xLegs := m.xLegs_eq ▸ reaches _
  have reachesY : m.Reaches m.yLegs := m.yLegs_eq ▸ reaches _
  obtain ⟨start, finish, found, rfl, started, path⟩ := path.of_bind_finished
  cases found with
  | error e =>
    -- fields of the right extents are never refused
    have missing : fields.find? (fun f => decide (f.extents ≠ m.extents)) = none := by simpa using shaped
    rw [startExchange, missing] at started
    obtain ⟨_, _, _, -, -, ended⟩ := started.of_bind_finished
    cases ended.finished_eq.2
  | ok ex =>
    obtain ⟨-, first, sides, rfl, rfl⟩ := (startExchange_path reachesX fields false ex).mp started
    change Path (m.finishExchange _) _ _ at path
    rw [finishExchange_eq] at path
    obtain ⟨waited, rest, found, rfl, completed, path⟩ := path.of_bind_finished
    have waits := complete_waits completed
    cases found with
    | error e =>
      obtain ⟨rfl, -⟩ := path.finished_eq
      refine ⟨first, [], [], false, sides, rfl, fun key => ?_⟩
      simp [Event.posts_of_waits waits, Event.claims_of_waits waits]
    | ok ex =>
      obtain ⟨reached, second, last, sides', rfl, waits'⟩ := secondPhase_asks reachesY path
      refine ⟨first, second, ex.staged, reached, sides, sides', fun key => ?_⟩
      simp [Event.posts_of_waits waits, Event.claims_of_waits waits, Event.posts_of_waits waits',
        Event.claims_of_waits waits']

/-! The keys on which a phase posts and claims. -/

section Keys

omit [Scalar α]

variable {sides : List Side} {posted : List Posted} {side : Side} {d : Int} (staged : List (Field α))

theorem asked_keys (same : posted.map (fun t => (t.leg, t.neighbour)) =
    sides.filterMap fun side => (m.neighbour? side).map fun d => (m.leg side, d)) :
    (∀ key message, .post key message ∈ posted.flatMap (Posted.events m.rank staged) →
        key.sender = m.rank ∧ ∃ side ∈ sides, key.tag = side.tag.number) ∧
      ∀ key number, .claim key number ∈ posted.flatMap (Posted.events m.rank staged) → key.receiver = m.rank := by
  refine ⟨fun key message member => ?_, fun key number member => ?_⟩
  · obtain ⟨t, among, event⟩ := List.mem_flatMap.mp member
    simp only [Posted.events, List.mem_cons, Event.post.injEq, reduceCtorEq, List.not_mem_nil, or_false] at event
    have talks : (t.leg, t.neighbour) ∈ sides.filterMap fun side => (m.neighbour? side).map fun d => (m.leg side, d) := by
      rw [← same]
      exact List.mem_map_of_mem among
    obtain ⟨side, member, found⟩ := List.mem_filterMap.mp talks
    obtain ⟨d, -, leg⟩ := Option.map_eq_some_iff.mp found
    rw [event.1]
    exact ⟨rfl, side, member, by rw [Posted.sendKey, ← (Prod.mk.inj leg).1]; rfl⟩
  · obtain ⟨t, -, event⟩ := List.mem_flatMap.mp member
    simp only [Posted.events, List.mem_cons, Event.claim.injEq, reduceCtorEq, List.not_mem_nil, or_false, false_or] at event
    rw [event.1]
    rfl

/-- On a side with a rank across a phase posts once and claims once, if the side belongs to it. -/
theorem asked_on_side (nodup : sides.Nodup) (across : m.neighbour? side = some d)
    (same : posted.map (fun t => (t.leg, t.neighbour)) =
      sides.filterMap fun side => (m.neighbour? side).map fun d => (m.leg side, d)) :
    Event.posts ⟨m.rank, d, side.tag.number⟩ (posted.flatMap (Posted.events m.rank staged)) =
        (if side ∈ sides then [(m.sourceBlock side).pack staged] else []) ∧
      (Event.claims ⟨d, m.rank, side.opposite.tag.number⟩ (posted.flatMap (Posted.events m.rank staged))).length =
        if side ∈ sides then 1 else 0 := by
  induction sides generalizing posted with
  | nil =>
    obtain rfl : posted = [] := by simpa using same
    exact ⟨rfl, rfl⟩
  | cons other rest ih =>
    obtain ⟨fresh, distinct⟩ := List.nodup_cons.mp nodup
    cases found : m.neighbour? other with
    | none =>
      have apart : side ≠ other := by
        intro identical
        subst identical
        rw [across] at found
        cases found
      simp only [List.filterMap_cons, found, Option.map_none] at same
      simpa [apart] using ih distinct same
    | some e =>
      simp only [List.filterMap_cons, found, Option.map_some] at same
      obtain ⟨t, later, rfl, first, others⟩ := List.map_eq_cons_iff.mp same
      obtain ⟨leg, rfl⟩ := Prod.mk.inj first
      obtain ⟨posts, claims⟩ := ih distinct others
      have sendKey : t.sendKey m.rank = ⟨m.rank, t.neighbour, other.tag.number⟩ := by rw [Posted.sendKey, leg]; rfl
      have receiveKey : t.receiveKey m.rank = ⟨t.neighbour, m.rank, other.opposite.tag.number⟩ := by
        rw [Posted.receiveKey, leg]
        rfl
      have source : t.leg.source = m.sourceBlock other := by rw [leg]; rfl
      rw [List.flatMap_cons, Event.posts_append, Event.claims_append, List.length_append, posts, claims]
      by_cases own : side = other
      · subst own
        obtain rfl : d = t.neighbour := Option.some.inj (across.symm.trans found)
        simp [Posted.events, Event.posts, Event.claims, List.filterMap_cons, Event.posted?, Event.claimed?, sendKey,
          receiveKey, source, fresh]
      · have tags : ¬ other.tag.number = side.tag.number := fun equal => own (Side.tag_number_injective equal).symm
        have tags' : ¬ other.opposite.tag.number = side.opposite.tag.number := fun equal => by
          have opposite := Side.tag_number_injective equal
          exact own (by rw [← side.opposite_opposite, ← opposite, Side.opposite_opposite])
        simp [Posted.events, Event.posts, Event.claims, List.filterMap_cons, Event.posted?, Event.claimed?, sendKey,
          receiveKey, tags, tags', own]

end Keys

end Mesh
end HaloMesh
