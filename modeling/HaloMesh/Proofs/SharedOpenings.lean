import HaloMesh.Proofs.JointOutcomes
import HaloMesh.Proofs.KeptCoordinates
import HaloMesh.Proofs.OwnMail

/-! Computations that all ranks open in the same way, as by asking for coordinates. Two of them that do the same once a rank
has what they open with come to the same results, although they may differ on ranks that do not have it yet. -/

namespace HaloMesh
open Transport Program

namespace RankM

variable {α κ β γ : Type} {first : RankM α κ} {p : RankM α β}

/-- A computation that begins with another one, and ends with it if that fails. -/
def Opens (first : RankM α κ) (p : RankM α β) : Prop :=
  ∃ rest : Outcome κ × Rank α → Program (Array α) (Outcome β × Rank α),
    (∀ e r, rest (.error e, r) = finished (.error e, r)) ∧ ∀ r, p.run.run r = (first.run.run r).bind rest

theorem opens_bind (first : RankM α κ) (next : κ → RankM α β) : Opens first (first >>= next) :=
  ⟨_, fun _ _ => rfl, run_bind first next⟩

theorem Opens.bind (opens : Opens first p) (next : β → RankM α γ) : Opens first (p >>= next) := by
  obtain ⟨rest, fails, same⟩ := opens
  let onward (found : Outcome β × Rank α) : Program (Array α) (Outcome γ × Rank α) :=
    match found with
    | (.ok b, r) => (next b).run.run r
    | (.error e, r) => finished (.error e, r)
  refine ⟨fun found => (rest found).bind onward, fun e r => ?_, fun r => ?_⟩
  · dsimp only
    rw [fails]
    rfl
  · rw [← bind_bind, ← same, run_bind]
    rfl

theorem Opens.congr {q : RankM α β} (opens : Opens first p) (same : ∀ r, q.run.run r = p.run.run r) : Opens first q := by
  obtain ⟨rest, fails, run⟩ := opens
  exact ⟨rest, fails, fun r => (same r).trans (run r)⟩

end RankM

section Joint

variable {α κ β : Type} {l : Layout α} {meshes : Nat → Mesh α} {before middle : Nat → Rank α} {first : RankM α κ}
  {p q : Nat → RankM α β} {k : Nat → κ} {P : (Nat → κ) → (Nat → Rank α) → Prop} {Good : (Nat → β) → (Nat → Rank α) → Prop}

/-- A rank that has what a computation opens with stands before that computation. -/
theorem RankM.Opens.exists_rest (opens : ∀ i < l.count, first.Opens (p i)) : ∃ rest : Nat → Outcome κ × Rank α →
    Program (Array α) (Outcome β × Rank α), ∀ i < l.count, (∀ e r, rest i (.error e, r) = finished (.error e, r)) ∧
      (∀ r, (p i).run.run r = (first.run.run r).bind (rest i)) ∧
      ∀ r k, r.Returns first k → rest i (.ok k, r) = (p i).run.run r := by
  have : Nonempty (Outcome κ × Rank α → Program (Array α) (Outcome β × Rank α)) :=
    ⟨fun found => finished (.error .outOfRange, found.2)⟩
  choose! rest fails same using opens
  refine ⟨rest, fun i inside => ⟨fails i inside, same i inside, fun r k returned => ?_⟩⟩
  rw [same i inside, returned]
  rfl

variable [Scalar α]

/-- What is in the mail when all ranks have ended does not depend on how they go on. -/
theorem Arrive.reached_ends {start : Nat → Program (Array α) κ} {k : Nat → κ}
    (arrived : Arrive l meshes start fun i => finished (k i)) (given : ∀ i < l.count, l.Assigns i (meshes i))
    (room : ∀ i < l.count, (meshes i).HasRoom) : ∃ box, ∀ f : Nat → κ → Program (Array α) β,
      Relation.ReflTransGen Moves (⟨(List.range l.count).map fun i => (start i).bind (f i), MailBox.empty⟩ : Situation _ _)
        ⟨(List.range l.count).map fun i => f i (k i), box⟩ := by
  -- the results are numbered, so that every rank goes on in its own way
  obtain ⟨box, reached⟩ := (arrived.bind fun i found => finished (i, found)).reached given room
  refine ⟨box, fun f => ?_⟩
  have onward := reaches_bind (fun found : Nat × κ => f found.1 found.2) reached
  simp only [List.map_map, Function.comp_def, bind_bind] at onward
  exact onward

/-- Worlds that open in one way get to where all ranks have what that comes to, with the same mail. -/
theorem Together.exists_opened (opening : Together l meshes (fun _ => first) before fun i => (.ok (k i), middle i))
    (given : ∀ i < l.count, l.Assigns i (meshes i)) (room : ∀ i < l.count, (meshes i).HasRoom)
    (has : ∀ i < l.count, (middle i).Returns first (k i)) : ∃ box, ∀ p : Nat → RankM α β, (∀ i < l.count, first.Opens (p i)) →
      Relation.ReflTransGen Moves (together l.count before p)
        ⟨(List.range l.count).map fun i => (p i).run.run (middle i), box⟩ := by
  obtain ⟨box, reached⟩ := opening.arrive.reached_ends given room
  refine ⟨box, fun p opens => ?_⟩
  obtain ⟨rest, known⟩ := RankM.Opens.exists_rest opens
  have begins : ((List.range l.count).map fun i => (p i).run.run (before i)) =
      (List.range l.count).map fun i => (first.run.run (before i)).bind (rest i) :=
    List.map_congr_left fun i member => (known i (List.mem_range.mp member)).2.1 (before i)
  have stands : ((List.range l.count).map fun i => (p i).run.run (middle i)) =
      (List.range l.count).map fun i => rest i (.ok (k i), middle i) :=
    List.map_congr_left fun i member => by
      have inside := List.mem_range.mp member
      exact ((known i inside).2.2 _ _ (has i inside)).symm
  rw [together, begins, stands]
  exact reached rest

/-- What computations come to once all ranks have what they open with, they come to anyway. -/
theorem Together.opened {results : Nat → Outcome β × Rank α}
    (opening : Together l meshes (fun _ => first) before fun i => (.ok (k i), middle i))
    (opens : ∀ i < l.count, first.Opens (p i)) (has : ∀ i < l.count, (middle i).Returns first (k i))
    (onward : Together l meshes p middle results) : Together l meshes p before results := by
  obtain ⟨rest, known⟩ := RankM.Opens.exists_rest opens
  have arrived : Arrive l meshes (fun i => (p i).run.run (before i)) fun i => (p i).run.run (middle i) := by
    obtain ⟨batches, staged, paths⟩ := opening.arrive
    refine ⟨batches, staged, fun i inside number parcelsOf told => ?_⟩
    dsimp only
    rw [(known i inside).2.1, ← (known i inside).2.2 _ _ (has i inside)]
    exact (paths i inside number parcelsOf told).bind (rest i)
  obtain ⟨batches, staged, paths⟩ := arrived.trans onward.arrive
  exact ⟨batches, ⟨staged, paths⟩⟩

/-- Where a rank ends with an error, the world does not end well. -/
theorem Fails.not_ends (fails : Fails l meshes p before) (given : ∀ i < l.count, l.Assigns i (meshes i))
    (room : ∀ i < l.count, (meshes i).HasRoom) {d : Nat → β} {t : Nat → Rank α} :
    ¬ EndsIn (together l.count before p) fun i => (.ok (d i), t i) := by
  intro ends
  have never : ComesTo l meshes p before fun _ _ => False := .inr fails
  obtain ⟨_, _, impossible, -⟩ := never.of_ends given room ends
  exact impossible

theorem Fails.opened (fails : Fails l meshes (fun _ => first) before) (opens : ∀ i < l.count, first.Opens (p i)) :
    Fails l meshes p before := by
  obtain ⟨rests, ⟨batches, staged, paths⟩, i, inside, e, r, ended⟩ := fails
  obtain ⟨rest, known⟩ := RankM.Opens.exists_rest opens
  refine ⟨fun i => (rests i).bind (rest i), ⟨batches, staged, fun j within number parcelsOf told => ?_⟩, i, inside, e, r, ?_⟩
  · dsimp only
    rw [(known j within).2.1]
    exact (paths j within number parcelsOf told).bind (rest j)
  · dsimp only
    rw [ended]
    exact (known i inside).1 e r

namespace ComesTo

/-- What computations come to where they end well, they come to together. -/
theorem together_of_ends {c : Nat → RankM α β} (comes : ComesTo l meshes c before Good)
    (given : ∀ i < l.count, l.Assigns i (meshes i)) (room : ∀ i < l.count, (meshes i).HasRoom) {b : Nat → β}
    {after : Nat → Rank α} (ends : EndsIn (together l.count before c) fun i => (.ok (b i), after i)) :
    Together l meshes c before fun i => (.ok (b i), after i) := by
  rcases comes with ⟨_, _, through, -⟩ | fails
  · exact through.congr fun i inside => (through.ends given room).unique ends (by simpa [together] using inside)
  · exact absurd ends (fails.not_ends given room)

/-- Computations that do the same on ranks that have what they open with end alike, also where ranks do not have it yet. -/
theorem endsIn_iff (opening : ComesTo l meshes (fun _ => first) before P) (given : ∀ i < l.count, l.Assigns i (meshes i))
    (room : ∀ i < l.count, (meshes i).HasRoom) (own : ∀ i < l.count, (before i).mesh = meshes i)
    (opens : ∀ i < l.count, first.Opens (p i) ∧ first.Opens (q i)) (discreet : ∀ i < l.count, (p i).Discreet ∧ (q i).Discreet)
    (onward : ∀ k middle, P k middle → ∀ i < l.count, (middle i).Returns first (k i) ∧
      (q i).run.run (middle i) = (p i).run.run (middle i)) (d : Nat → β) (t : Nat → Rank α) :
    EndsIn (together l.count before p) (fun i => (.ok (d i), t i)) ↔
      EndsIn (together l.count before q) fun i => (.ok (d i), t i) := by
  rcases opening with ⟨k, middle, shared, good⟩ | fails
  · have known := onward k middle good
    obtain ⟨box, reached⟩ := shared.exists_opened (β := β) given room fun i inside => (known i inside).1
    have left := reached p fun i inside => (opens i inside).1
    have right := reached q fun i inside => (opens i inside).2
    rw [List.map_congr_left fun i member => (known i (List.mem_range.mp member)).2] at right
    exact endsIn_iff_of_common (together_ownMail given own fun i inside => (discreet i inside).1)
      (together_ownMail given own fun i inside => (discreet i inside).2) left right
  · have left : Fails l meshes p before := fails.opened fun i inside => (opens i inside).1
    have right : Fails l meshes q before := fails.opened fun i inside => (opens i inside).2
    exact ⟨fun ends => absurd ends (left.not_ends given room), fun ends => absurd ends (right.not_ends given room)⟩

end ComesTo

end Joint

end HaloMesh
