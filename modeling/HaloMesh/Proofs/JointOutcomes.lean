import HaloMesh.Proofs.ExchangeSequence
import HaloMesh.Proofs.RankOutcomes

/-! What all ranks come to together. Computations that work on each rank alone can fail on some of them, and then the ranks
part: either all get through a computation, with exchanges of all of them in a row, or one of them ends with an error
and the world cannot end well. -/

namespace HaloMesh
open Transport Program

namespace Transport

variable {μ β γ : Type}

namespace Program

private theorem branch_bind {ι : Type} [DecidableEq ι] {next : ι → Program μ β} {start : Program μ (Program μ β)} {taken : ι}
    (same : start.bind id = next taken) (i : ι) : (if i = taken then start else finished (next i)).bind id = next i := by
  by_cases here : i = taken
  · rw [if_pos here, same, here]
  · rw [if_neg here]
    rfl

open Classical in
/-- A program up to some point of its way, with what is left of it as its result. -/
theorem Path.cut {p q : Program μ β} {events : List (Event μ)} (path : Path p events q) :
    ∃ start : Program μ (Program μ β), Path start events (finished q) ∧ start.bind id = p := by
  induction path with
  | here p => exact ⟨finished p, .here _, rfl⟩
  | @post key message _ _ _ _ ih =>
    obtain ⟨start, path, same⟩ := ih
    exact ⟨_, .post path, congrArg (Program.post key message) same⟩
  | @claim key next _ _ number _ ih =>
    obtain ⟨start, path, same⟩ := ih
    exact ⟨.claim key fun n => if n = number then start else finished (next n), .claim number (by rwa [if_pos rfl]),
      congrArg (Program.claim key) (funext (branch_bind same))⟩
  | @receive key number next _ _ answer _ ih =>
    obtain ⟨start, path, same⟩ := ih
    exact ⟨.receive key number fun m => if m = answer then start else finished (next m), .receive answer (by rwa [if_pos rfl]),
      congrArg (Program.receive key number) (funext (branch_bind same))⟩
  | @pending sender receiver next _ _ tags _ ih =>
    obtain ⟨start, path, same⟩ := ih
    exact ⟨.pending sender receiver fun t => if t = tags then start else finished (next t), .pending tags (by rwa [if_pos rfl]),
      congrArg (Program.pending sender receiver) (funext (branch_bind same))⟩

theorem step?_bind {p q : Program μ β} {box box' : MailBox μ} (stepped : p.step? box = some (q, box'))
    (f : β → Program μ γ) : (p.bind f).step? box = some (q.bind f, box') := by
  cases p with
  | finished => cases stepped
  | post key message next | claim key next | pending sender receiver next =>
    obtain ⟨rfl, rfl⟩ := Prod.mk.inj (Option.some.inj stepped)
    rfl
  | receive key number next =>
    obtain ⟨⟨message, rest⟩, taken, same⟩ := Option.map_eq_some_iff.mp stepped
    obtain ⟨rfl, rfl⟩ := Prod.mk.inj same
    change (box.take? key number).map _ = _
    rw [taken]
    rfl

end Program

/-- A world whose ranks go on afterwards makes the same moves. -/
theorem reaches_bind {ranks ranks' : List (Program μ β)} {box box' : MailBox μ} (f : β → Program μ γ)
    (reached : Relation.ReflTransGen Moves (⟨ranks, box⟩ : Situation μ β) ⟨ranks', box'⟩) :
    Relation.ReflTransGen Moves (⟨ranks.map (·.bind f), box⟩ : Situation μ γ) ⟨ranks'.map (·.bind f), box'⟩ := by
  let onward (s : Situation μ β) : Situation μ γ := ⟨s.ranks.map (·.bind f), s.box⟩
  refine reached.lift onward fun s t moved => ?_
  obtain @⟨ranks, box, box', p, q, rank, found, stepped⟩ := moved
  change Moves (onward ⟨ranks, box⟩) (onward ⟨ranks.set rank q, box'⟩)
  simp only [onward, List.map_set]
  exact .answered rank (by rw [List.getElem?_map, found]; rfl) (step?_bind stepped f)

/-- A rank that has ended stays as it is. -/
theorem ended_stays {start state : Situation μ β} (reached : Relation.ReflTransGen Moves start state) {i : Nat} {b : β}
    (ended : start.ranks[i]? = some (finished b)) : state.ranks[i]? = some (finished b) := by
  induction reached with
  | refl => exact ended
  | tail _ moved ih =>
    obtain @⟨ranks, box, box', p, q, rank, found, stepped⟩ := moved
    by_cases same : rank = i
    · subst same
      cases Option.some.inj (found.symm.trans ih)
      cases stepped
    · simpa [List.getElem?_set_ne same] using ih

end Transport

/-- What the events of some exchanges are depends on the parcels of these exchanges. -/
theorem Transport.Step.script_rounds_congr {μ : Type} {rank : Int} {parcels parcels' : Nat → Nat → List (Parcel μ)} {count : Nat}
    (same : ∀ kind k, kind < 2 → k < count → parcels kind k = parcels' kind k) :
    script rank parcels (rounds 0 count) = script rank parcels' (rounds 0 count) := by
  refine List.flatMap_congr fun step member => ?_
  cases step with
  | ask kind k =>
    obtain ⟨known, short⟩ := ask_mem_rounds.mp member
    rw [events, events, same kind k known short]
  | get kind k =>
    obtain ⟨known, short⟩ := get_mem_rounds.mp member
    rw [events, events, same kind k known short]

section Ways

variable {α : Type} [Scalar α] {l : Layout α} {meshes : Nat → Mesh α} {β γ : Type}

open Transport.Step (rounds)

/-- All ranks of a layout go through exchanges of some batches in a row and stand before what is left of their programs. -/
def Arrive (l : Layout α) (meshes : Nat → Mesh α) {β : Type} (start rests : Nat → Program (Array α) β) : Prop :=
  ∃ batches : List (Nat → List (Field α)), (∀ b ∈ batches, ∃ size, size ≠ 0 ∧ Staged l meshes size b) ∧
    ∀ i < l.count, ∀ (first : Nat) (parcelsOf : Nat → Nat → List (Parcel (Array α))),
      (∀ (k : Nat) b, batches[k]? = some b →
        parcelsOf 0 (first + k) = Mesh.parcels meshes b (meshes i).shape.xSides i ∧
          parcelsOf 1 (first + k) = Mesh.parcels meshes (Mesh.afterX meshes b) (meshes i).shape.ySides i) →
      Path (start i) (Step.script i parcelsOf (rounds first batches.length)) (rests i)

theorem Together.arrive {c : Nat → RankM α β} {before : Nat → Rank α} {results : Nat → Outcome β × Rank α}
    (together : Together l meshes c before results) :
    Arrive l meshes (fun i => (c i).run.run (before i)) fun i => finished (results i) := by
  obtain ⟨batches, staged, paths⟩ := together
  exact ⟨batches, staged, paths⟩

namespace Arrive

variable {start middle rests : Nat → Program (Array α) β}

theorem refl (start : Nat → Program (Array α) β) : Arrive l meshes start start :=
  ⟨[], fun _ member => absurd member List.not_mem_nil, fun i _ _ _ _ => .here (start i)⟩

theorem trans (first : Arrive l meshes start middle) (second : Arrive l meshes middle rests) :
    Arrive l meshes start rests := by
  obtain ⟨batches, staged, paths⟩ := first
  obtain ⟨batches', staged', paths'⟩ := second
  refine ⟨batches ++ batches', fun b member => (List.mem_append.mp member).elim (staged b) (staged' b),
    fun i inside start parcelsOf known => ?_⟩
  rw [List.length_append, Step.rounds_add, Step.script, List.flatMap_append]
  refine (paths i inside start parcelsOf fun k b found => known k b ?_).trans
    (paths' i inside (start + batches.length) parcelsOf fun k b found => ?_)
  · rwa [List.getElem?_append_left (List.getElem?_eq_some_iff.mp found).1]
  · rw [Nat.add_assoc]
    refine known (batches.length + k) b ?_
    rwa [List.getElem?_append_right (Nat.le_add_right ..), Nat.add_sub_cancel_left]

theorem bind (arrived : Arrive l meshes start rests) (f : Nat → β → Program (Array α) γ) :
    Arrive l meshes (fun i => (start i).bind (f i)) fun i => (rests i).bind (f i) := by
  obtain ⟨batches, staged, paths⟩ := arrived
  exact ⟨batches, staged, fun i inside first parcelsOf known => (paths i inside first parcelsOf known).bind (f i)⟩

/-- What all ranks stand before is a situation of their world. -/
theorem reached (arrived : Arrive l meshes start rests) (given : ∀ i < l.count, l.Assigns i (meshes i))
    (room : ∀ i < l.count, (meshes i).HasRoom) : ∃ box, Relation.ReflTransGen Moves
      (⟨(List.range l.count).map start, MailBox.empty⟩ : Situation _ _) ⟨(List.range l.count).map rests, box⟩ := by
  obtain ⟨batches, staged, paths⟩ := arrived
  let parcels (i kind k : Nat) : List (Parcel (Array α)) := (batches[k]?).elim [] fun b =>
    if kind = 0 then Mesh.parcels meshes b (meshes i).shape.xSides i
    else Mesh.parcels meshes (Mesh.afterX meshes b) (meshes i).shape.ySides i
  have cut (i : Nat) : ∃ begun : Program (Array α) (Program (Array α) β), i < l.count →
      Path begun (Step.script i (parcels i) (rounds 0 batches.length)) (finished (rests i)) ∧ begun.bind id = start i := by
    by_cases inside : i < l.count
    · have path := paths i inside 0 (parcels i) fun k b found => by simp [parcels, found]
      obtain ⟨begun, whole, same⟩ := path.cut
      exact ⟨begun, fun _ => ⟨whole, same⟩⟩
    · exact ⟨finished (rests i), fun within => absurd within inside⟩
  choose begun known using cut
  have ends : EndsIn ⟨(List.range l.count).map begun, MailBox.empty⟩ rests := by
    refine endsIn_of_rounds given room staged fun i inside parcelsOf told => ?_
    rw [Step.script_rounds_congr fun kind k known short => ?_]
    · exact (known i inside).1
    · obtain ⟨columns, rows⟩ := told k _ (List.getElem?_eq_getElem short)
      obtain rfl | rfl : kind = 0 ∨ kind = 1 := by omega
      · simp [parcels, columns, short]
      · simp [parcels, rows, short]
  obtain ⟨⟨ranks, box⟩, reached, still⟩ := exists_last (⟨(List.range l.count).map begun, MailBox.empty⟩ : Situation _ _)
  obtain ⟨ended, -⟩ := (ends _ reached).resolve_left fun ⟨next, moved⟩ => still next moved
  refine ⟨box, ?_⟩
  have onward := reaches_bind id reached
  simp only [List.length_map, List.length_range] at ended
  subst ended
  simp only [List.map_map] at onward
  have begins : (List.range l.count).map ((fun p => p.bind id) ∘ begun) = (List.range l.count).map start :=
    List.map_congr_left fun i member => (known i (List.mem_range.mp member)).2
  rwa [begins] at onward

end Arrive

/-- All ranks of a layout go some way of a computation together, and there one of them ends with an error. -/
def Fails (l : Layout α) (meshes : Nat → Mesh α) {β : Type} (c : Nat → RankM α β) (before : Nat → Rank α) : Prop :=
  ∃ rests, Arrive l meshes (fun i => (c i).run.run (before i)) rests ∧
    ∃ i < l.count, ∃ e r, rests i = finished (.error e, r)

/-- All ranks of a layout get through a computation together to such results, or it fails on one of them. -/
def ComesTo (l : Layout α) (meshes : Nat → Mesh α) {β : Type} (c : Nat → RankM α β) (before : Nat → Rank α)
    (Good : (Nat → β) → (Nat → Rank α) → Prop) : Prop :=
  (∃ b after, Together l meshes c before (fun i => (.ok (b i), after i)) ∧ Good b after) ∨ Fails l meshes c before

variable {c : Nat → RankM α β} {before middle : Nat → Rank α} {next : Nat → β → RankM α γ}
  {Good : (Nat → β) → (Nat → Rank α) → Prop} {Fine : (Nat → γ) → (Nat → Rank α) → Prop}

namespace Fails

theorem bind (fails : Fails l meshes c before) (next : Nat → β → RankM α γ) :
    Fails l meshes (fun i => c i >>= next i) before := by
  obtain ⟨rests, arrived, i, inside, e, r, ended⟩ := fails
  simp only [Fails, RankM.run_bind]
  refine ⟨_, arrived.bind fun i => _, i, inside, e, r, ?_⟩
  rw [ended]
  rfl

theorem after {b : Nat → β} (first : Together l meshes c before fun i => (.ok (b i), middle i))
    (fails : Fails l meshes (fun i => next i (b i)) middle) : Fails l meshes (fun i => c i >>= next i) before := by
  obtain ⟨rests, arrived, failed⟩ := fails
  simp only [Fails, RankM.run_bind]
  exact ⟨rests, (first.arrive.bind fun i => _).trans arrived, failed⟩

theorem mapError (fails : Fails l meshes c before) (change : Failure → Failure) :
    Fails l meshes (fun i => ExceptT.mk do return (← (c i).run).mapError change) before := by
  obtain ⟨rests, arrived, i, inside, e, r, ended⟩ := fails
  refine ⟨_, arrived.bind fun i ended => finished (ended.1.mapError change, ended.2), i, inside, change e, r, ?_⟩
  rw [ended]
  rfl

end Fails

theorem Together.mapError {b : Nat → β} (together : Together l meshes c before fun i => (.ok (b i), middle i))
    (change : Failure → Failure) : Together l meshes (fun i => ExceptT.mk do return (← (c i).run).mapError change) before
      fun i => (.ok (b i), middle i) := by
  obtain ⟨batches, staged, paths⟩ := together
  refine ⟨batches, ⟨staged, fun i inside first parcelsOf known => ?_⟩⟩
  rw [← List.append_nil (Step.script _ _ _)]
  exact (paths i inside first parcelsOf known).bind_finished (.here _)

namespace ComesTo

theorem of_together {b : Nat → β} (together : Together l meshes c before fun i => (.ok (b i), middle i))
    (good : Good b middle) : ComesTo l meshes c before Good := .inl ⟨b, middle, together, good⟩

theorem mono (comes : ComesTo l meshes c before Good) {Good' : (Nat → β) → (Nat → Rank α) → Prop}
    (weaker : ∀ b after, Good b after → Good' b after) : ComesTo l meshes c before Good' :=
  comes.imp_left fun ⟨b, after, together, good⟩ => ⟨b, after, together, weaker b after good⟩

theorem bind {P : (Nat → β) → (Nat → Rank α) → Prop} (first : ComesTo l meshes c before P)
    (second : ∀ b middle, P b middle → ComesTo l meshes (fun i => next i (b i)) middle Fine) :
    ComesTo l meshes (fun i => c i >>= next i) before Fine := by
  rcases first with ⟨b, middle, together, good⟩ | failed
  · rcases second b middle good with ⟨d, after, together', fine⟩ | failed
    · exact .inl ⟨d, after, together.bind together', fine⟩
    · exact .inr (.after together failed)
  · exact .inr (failed.bind next)

theorem mapError (comes : ComesTo l meshes c before Good) (change : Failure → Failure) :
    ComesTo l meshes (fun i => ExceptT.mk do return (← (c i).run).mapError change) before Good :=
  comes.imp (fun ⟨b, after, together, good⟩ => ⟨b, after, together.mapError change, good⟩) (·.mapError change)

theorem insist (comes : ComesTo l meshes c before Good) : ComesTo l meshes (fun i => RankM.insist (c i)) before Good :=
  comes.mapError _

theorem labelled (comes : ComesTo l meshes c before Good) (activity : Activity) :
    ComesTo l meshes (fun i => RankM.labelled activity (c i)) before Good :=
  comes.mapError _

/-- What every rank comes to by itself fails on some rank, or on none. -/
theorem alone {P : Nat → β → Rank α → Prop} (each : ∀ i < l.count, ∃ outcome r,
      (c i).run.run (before i) = finished (outcome, r) ∧ ∀ b, outcome = .ok b → P i b r) :
    ComesTo l meshes c before fun b after => ∀ i < l.count, P i (b i) (after i) := by
  have some_ : 0 < l.count := Nat.mul_pos l.columns.positive l.rows.positive
  by_cases all : ∀ i < l.count, ∃ b r, (c i).run.run (before i) = finished (.ok b, r)
  · have : Nonempty β := ⟨(all 0 some_).choose⟩
    have : Nonempty (Rank α) := ⟨before 0⟩
    choose! b after ended using all
    refine .inl ⟨b, after, .alone fun i inside => ended i inside ▸ .here _, fun i inside => ?_⟩
    obtain ⟨outcome, r, same, good⟩ := each i inside
    obtain ⟨rfl, rfl⟩ := Prod.mk.inj (Program.finished.inj ((ended i inside).symm.trans same))
    exact good _ rfl
  · simp only [not_forall, not_exists] at all
    obtain ⟨i, inside, unended⟩ := all
    obtain ⟨outcome, r, same, -⟩ := each i inside
    refine .inr ⟨_, .refl _, i, inside, ?_⟩
    cases outcome with
    | ok b => exact absurd same (unended b r)
    | error e => exact ⟨e, r, same⟩

theorem ofOutcome {outcome : Nat → Outcome β} (before : Nat → Rank α) : ComesTo l meshes (fun i => RankM.ofOutcome (outcome i))
    before fun b after => ∀ i < l.count, outcome i = .ok (b i) ∧ after i = before i :=
  alone (P := fun i b r => outcome i = .ok b ∧ r = before i)
    fun i _ => ⟨outcome i, before i, rfl, fun _ same => ⟨same, rfl⟩⟩

/-- What a rank comes to in a joint computation, it can come to by itself. -/
theorem leading (comes : ComesTo l meshes c before Good) {Q : Nat → β → Rank α → Prop}
    (leads : ∀ i < l.count, RankM.Leads (fun r => r = before i) (c i) (Q i)) :
    ComesTo l meshes c before fun b after => Good b after ∧ ∀ i < l.count, Q i (b i) (after i) := by
  refine comes.imp_left fun ⟨b, after, together, good⟩ => ⟨b, after, together, good, fun i inside => ?_⟩
  obtain ⟨events, path⟩ := together.exists_path inside
  exact (leads i inside _ rfl).at_path path _ rfl

/-- Where a world ends well, all ranks got through. -/
theorem of_ends (comes : ComesTo l meshes c before Good) (given : ∀ i < l.count, l.Assigns i (meshes i))
    (room : ∀ i < l.count, (meshes i).HasRoom) {b : Nat → β} {after : Nat → Rank α}
    (ends : EndsIn (together l.count before c) fun i => (.ok (b i), after i)) :
    ∃ b' after', Good b' after' ∧ ∀ i < l.count, b' i = b i ∧ after' i = after i := by
  rcases comes with ⟨b', after', through, good⟩ | ⟨rests, arrived, i, inside, e, r, failed⟩
  · refine ⟨b', after', good, fun i inside => ?_⟩
    have same := (through.ends given room).unique ends (i := i) (by simpa [together] using inside)
    obtain ⟨result, rank⟩ := Prod.mk.inj same
    exact ⟨Except.ok.inj result, rank⟩
  · obtain ⟨box, reached⟩ := arrived.reached given room
    obtain ⟨⟨ranks, box'⟩, later, still⟩ := exists_last (⟨(List.range l.count).map rests, box⟩ : Situation _ _)
    obtain ⟨ended, -⟩ := (ends _ (reached.trans later)).resolve_left fun ⟨next, moved⟩ => still next moved
    have stays := ended_stays later (i := i) (b := (.error e, r)) (by simp [inside, failed])
    change ranks = _ at ended
    rw [ended] at stays
    simp [together, inside] at stays

end ComesTo

end Ways

end HaloMesh
