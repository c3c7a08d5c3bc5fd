import HaloMesh.Proofs.Communication

/-! Exchanges that fail. What arrives goes into copies of the fields, and the fields get the values of the
copies only after the last wait has succeeded. So a call that ends with an error has changed nothing, no matter
how far it came and what the other ranks did. -/

namespace HaloMesh
open Transport Program

namespace Transport

variable {μ β : Type}

/-- A rank comes to the end of a program somewhere: in a world with any mail in it and any other ranks, answered
in any order, with any of the waits given up. -/
def Ends (p : Program μ β) (b : β) : Prop :=
  ∃ (start state : Situation μ β) (history : List (Nat × Event μ)) (rank : Nat),
    start.ranks[rank]? = some p ∧ History start history state ∧ state.ranks[rank]? = some (.finished b)

theorem Ends.path {p : Program μ β} {b : β} (ends : Ends p b) : ∃ events, Path p events (.finished b) := by
  obtain ⟨start, state, history, rank, begun, past, ended⟩ := ends
  obtain ⟨q, now, path⟩ := past.path rank p begun
  rw [ended] at now
  obtain rfl : finished b = q := Option.some.inj now
  exact ⟨_, path⟩

variable {α : Type} {request done : Request α} {events : List (Event (Array α))}

/-- A request that was waited on is spent, and an error leaves its buffer as it was. -/
theorem Request.wait_ends {e? : Option Error} (fresh : request.consumed = false)
    (path : Path request.wait events (.finished (done, e?))) :
    done.consumed = true ∧ (e? = none ∨ done.buffer = request.buffer) := by
  simp only [Request.wait, fresh, Bool.false_eq_true, ↓reduceIte] at path
  cases duty : request.duty with
  | done =>
    rw [duty] at path
    obtain ⟨rfl, rfl⟩ := Prod.mk.inj path.finished_eq.2
    exact ⟨rfl, .inl rfl⟩
  | failed e =>
    rw [duty] at path
    obtain ⟨rfl, rfl⟩ := Prod.mk.inj path.finished_eq.2
    exact ⟨rfl, .inr rfl⟩
  | collect key number =>
    rw [duty] at path
    obtain ⟨first, second, answer, rfl, -, path⟩ := path.of_bind_finished
    cases answer with
    | none =>
      obtain ⟨_, _, tags, rfl, -, path⟩ := path.of_bind_finished
      obtain ⟨rfl, rfl⟩ := Prod.mk.inj path.finished_eq.2
      exact ⟨rfl, .inr rfl⟩
    | some message =>
      dsimp only at path
      split at path
      · obtain ⟨rfl, rfl⟩ := Prod.mk.inj path.finished_eq.2
        exact ⟨rfl, .inl rfl⟩
      · obtain ⟨rfl, rfl⟩ := Prod.mk.inj path.finished_eq.2
        exact ⟨rfl, .inr rfl⟩

end Transport

namespace Mesh

variable {α : Type} {m : Mesh α} {request done : Request α} {events : List (Event (Array α))}

theorem waitProc_consumed (m : Mesh α) (spent : request.consumed = true) :
    m.waitProc request = .finished (request, some .handleConsumed) := by
  simp only [waitProc, spent, ↓reduceIte]
  rfl

theorem waitProc_ends {e? : Option Error} (path : Path (m.waitProc request) events (.finished (done, e?))) :
    done.consumed = true ∧ (e? = none ∨ done.buffer = request.buffer) := by
  cases spent : request.consumed with
  | true =>
    rw [waitProc_consumed m spent] at path
    obtain ⟨rfl, -⟩ := Prod.mk.inj path.finished_eq.2
    exact ⟨spent, .inr rfl⟩
  | false =>
    simp only [waitProc, spent, Bool.false_eq_true, ↓reduceIte] at path
    obtain ⟨first, second, ⟨settled, error?⟩, rfl, waited, path⟩ := path.of_bind_finished
    obtain ⟨rfl, rfl⟩ := Prod.mk.inj path.finished_eq.2
    obtain ⟨used, kept⟩ := Request.wait_ends spent waited
    refine ⟨used, kept.imp_left ?_⟩
    rintro rfl
    rfl

/-- A receive that was posted, or could not be, still has the buffer it was given. -/
theorem receiveFromProc_ends {px py tag : Int} {buffer : Array α}
    (path : Path (m.receiveFromProc px py buffer tag) events (.finished request)) :
    request.buffer = buffer ∧ request.consumed = false := by
  simp only [receiveFromProc, Endpoint.receive] at path
  split at path
  · obtain ⟨first, second, number, rfl, -, path⟩ := path.of_bind_finished
    obtain rfl := path.finished_eq.2
    exact ⟨rfl, rfl⟩
  · obtain rfl := path.finished_eq.2
    exact ⟨rfl, rfl⟩

end Mesh

namespace RankM

variable {α : Type} [Scalar α] {r : Rank α} {h : Handle α} {events : List (Event (Array α))}

/-- A wait always gives its handle back, spent. Only a wait without an error has changed the rank. -/
theorem wait_ends {result : Outcome (Handle α × Option Error) × Rank α}
    (path : Path ((wait h).run.run r) events (.finished result)) :
    ∃ e? r', result = (.ok ({ h with consumed := true }, e?), r') ∧ (e? = none ∨ r' = r) := by
  cases spent : h.consumed with
  | true =>
    rw [wait_consumed r spent] at path
    obtain ⟨-, rfl⟩ := path.finished_eq
    exact ⟨some .handleConsumed, r, by rw [← spent], .inr rfl⟩
  | false =>
    rw [wait_run h r spent] at path
    obtain ⟨first, second, finished, rfl, -, path⟩ := path.of_bind_finished
    cases finished with
    | error e =>
      obtain ⟨-, rfl⟩ := path.finished_eq
      exact ⟨some e, r, rfl, .inr rfl⟩
    | ok staged =>
      obtain ⟨-, rfl⟩ := path.finished_eq
      exact ⟨none, _, rfl, .inl rfl⟩

theorem communicate_failed {refs : List FieldRef} {xOnly : Bool} {r' : Rank α} {failure : Failure}
    (path : Path ((communicate refs xOnly).run.run r) events (.finished (.error failure, r'))) : r' = r := by
  cases found : refs.mapM r.store.get? with
  | none =>
    unfold communicate at path
    rw [run_bind, send_run, found] at path
    exact (Prod.mk.inj path.finished_eq.2).2.symm
  | some fields =>
    obtain ⟨outcome, -, ⟨e, -, same⟩ | ⟨staged, -, impossible⟩⟩ := communicate_path found path
    · exact (Prod.mk.inj same).2
    · cases (Prod.mk.inj impossible).1

end RankM

/-- Whatever the other ranks do: a communication that fails leaves the rank with all its fields as it was, and so
does a wait that fails. A failed receive leaves its buffer as it was. A handle that was waited on is refused from
then on, at once and without a change to the rank. -/
theorem failed_exchange_changes_nothing {α : Type} [Scalar α] :
    (∀ (refs : List FieldRef) (xOnly : Bool) (r r' : Rank α) (failure : Failure),
      Ends ((RankM.communicate refs xOnly).run.run r) (.error failure, r') → r' = r) ∧
    (∀ (h : RankM.Handle α) (r : Rank α) (result : Outcome (RankM.Handle α × Option Error) × Rank α),
      Ends ((RankM.wait h).run.run r) result → ∃ h' e? r', result = (.ok (h', e?), r') ∧ (e? = none ∨ r' = r) ∧
        ∀ later : Rank α, (RankM.wait h').run.run later = .finished (.ok (h', some .handleConsumed), later)) ∧
    ∀ (m : Mesh α) (px py tag : Int) (buffer : Array α) (request request' : Request α) (e? : Option Error),
      Ends (m.receiveFromProc px py buffer tag) request → Ends (m.waitProc request) (request', e?) →
        (e? = none ∨ request'.buffer = buffer) ∧
        m.waitProc request' = .finished (request', some .handleConsumed) := by
  refine ⟨?_, ?_, ?_⟩
  · intro refs xOnly r r' failure ends
    obtain ⟨events, path⟩ := ends.path
    exact RankM.communicate_failed path
  · intro h r result ends
    obtain ⟨events, path⟩ := ends.path
    obtain ⟨e?, r', rfl, kept⟩ := RankM.wait_ends path
    exact ⟨_, e?, r', rfl, kept, fun later => RankM.wait_consumed later rfl⟩
  · intro m px py tag buffer request request' e? posted waited
    obtain ⟨first, posted⟩ := posted.path
    obtain ⟨second, waited⟩ := waited.path
    obtain ⟨given, -⟩ := Mesh.receiveFromProc_ends posted
    obtain ⟨spent, kept⟩ := Mesh.waitProc_ends waited
    exact ⟨given ▸ kept, m.waitProc_consumed spent⟩

/-- The inner neighbour of the first rank has sent its column, the outer one never does. -/
def halfHeard : RankM.Handle Whole where
  fields := [⟨0⟩]
  exchange :=
    { staged := [singleNullField 0], xOnly := true, sends := []
      receives :=
        [⟨⟨.collect ⟨1, 0, 5⟩ 0, Array.replicate 4 0, false⟩, .between 5 5 1 4, 0⟩,
          ⟨⟨.collect ⟨2, 0, 4⟩ 0, Array.replicate 4 0, false⟩, .between 0 0 1 4, 0⟩] }
  consumed := false

theorem halfHeard_ends (m : Mesh Whole) : ∃ h' tags r', Ends ((RankM.wait halfHeard).run.run (singleNullRank m 0))
    (.ok (h', some (.within (.exchangeOnRank m.rank) (.timeout 0 4 2 tags))), r') := by
  let box : MailBox (Array Whole) := MailBox.empty.post ⟨1, 0, 5⟩ (Array.replicate 4 ⟨7⟩)
  let world : Situation (Array Whole) _ := ⟨[(RankM.wait halfHeard).run.run (singleNullRank m 0)], box⟩
  have begun : History world [] world := .start
  have heard := begun.answered 0 rfl rfl rfl
  have missed := heard.expired 0 rfl rfl rfl
  have asked := missed.answered 0 rfl rfl rfl
  exact ⟨_, _, _, _, _, _, 0, rfl, asked, rfl⟩

/-- One column has arrived and the other is missing: the wait fails, the rank stays as it was, and the handle is
refused from then on. -/
theorem halfHeard_changes_nothing : ∃ (m : Mesh Whole) (h' : RankM.Handle Whole) (e : Error) (r' : Rank Whole),
    Mesh.load singleNullSource Options.empty ⟨0, 8⟩ = .ok (m, []) ∧
    Ends ((RankM.wait halfHeard).run.run (singleNullRank m 0)) (.ok (h', some e), r') ∧ r' = singleNullRank m 0 ∧
    ∀ later : Rank Whole, (RankM.wait h').run.run later = .finished (.ok (h', some .handleConsumed), later) := by
  obtain ⟨m, loaded, -⟩ := load_singleNull_block 0 (by omega)
  obtain ⟨h', tags, r', ends⟩ := halfHeard_ends m
  obtain ⟨-, waits, -⟩ := failed_exchange_changes_nothing (α := Whole)
  obtain ⟨spent, e?, after, same, kept, refused⟩ := waits halfHeard _ _ ends
  obtain ⟨made, rfl⟩ := Prod.mk.inj same
  obtain ⟨rfl, rfl⟩ := Prod.mk.inj (Except.ok.inj made)
  exact ⟨m, h', _, r', loaded, ends, kept.resolve_left (by simp), refused⟩

end HaloMesh
