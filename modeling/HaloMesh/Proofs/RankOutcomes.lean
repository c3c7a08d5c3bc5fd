import HaloMesh.Proofs.LocalOperators

/-! What computations of a rank can come to. Others may answer a rank as they like: the successful ends of its computation
are told from the rank that started it, and two computations that agree on these ends step by step are the same program. -/

namespace HaloMesh
open Transport Program

namespace Transport.Program

variable {μ β γ : Type} {P : β → Prop} {Q : γ → Prop} {p : Program μ β} {f g : β → Program μ γ}

/-- Whatever a program is answered, its result has a property. -/
def Always (P : β → Prop) : Program μ β → Prop
  | finished b => P b
  | post _ _ next => next.Always P
  | claim _ next => ∀ n, (next n).Always P
  | receive _ _ next => ∀ m, (next m).Always P
  | pending _ _ next => ∀ tags, (next tags).Always P

theorem Always.bind (first : p.Always P) (next : ∀ b, P b → (f b).Always Q) : (p.bind f).Always Q := by
  induction p with
  | finished b => exact next b first
  | post key message rest ih => exact ih first
  | claim key rest ih => exact fun n => ih n (first n)
  | receive key number rest ih => exact fun m => ih m (first m)
  | pending sender receiver rest ih => exact fun tags => ih tags (first tags)

theorem Always.of_all (all : ∀ b, P b) : p.Always P := by
  induction p with
  | finished b => exact all b
  | post key message rest ih => exact ih
  | claim key rest ih => exact ih
  | receive key number rest ih => exact ih
  | pending sender receiver rest ih => exact ih

theorem Always.mono {P' : β → Prop} (first : p.Always P) (weaker : ∀ b, P b → P' b) : p.Always P' := by
  have weakened := first.bind (f := finished) (Q := P') weaker
  rwa [bind_finished] at weakened

/-- What follows a program only has to agree on the results that it can come to. -/
theorem Always.bind_congr (first : p.Always P) (same : ∀ b, P b → f b = g b) : p.bind f = p.bind g := by
  induction p with
  | finished b => exact same b first
  | post key message rest ih => exact congrArg (post key message) (ih first)
  | claim key rest ih => exact congrArg (claim key) (funext fun n => ih n (first n))
  | receive key number rest ih => exact congrArg (receive key number) (funext fun m => ih m (first m))
  | pending sender receiver rest ih => exact congrArg (pending sender receiver) (funext fun tags => ih tags (first tags))

/-- What holds wherever a program can come to by itself holds whatever it is answered. -/
theorem Always.of_path (ends : ∀ events b, Path p events (finished b) → P b) : p.Always P := by
  induction p with
  | finished b => exact ends [] b (.here _)
  | post key message next ih => exact ih fun events b path => ends _ b (.post path)
  | claim key next ih => exact fun n => ih n fun events b path => ends _ b (.claim n path)
  | receive key number next ih => exact fun m => ih m fun events b path => ends _ b (.receive m path)
  | pending sender receiver next ih => exact fun tags => ih tags fun events b path => ends _ b (.pending tags path)

theorem Always.at_path {events : List (Event μ)} {b : β} (always : p.Always P)
    (path : Path p events (finished b)) : P b := by
  generalize ended : finished b = q at path
  induction path with
  | here =>
    subst ended
    exact always
  | post _ ih => exact ih always ended
  | claim n _ ih => exact ih (always n) ended
  | receive m _ ih => exact ih (always m) ended
  | pending tags _ ih => exact ih (always tags) ended

end Transport.Program

namespace RankM

variable {α β γ : Type} {P : Rank α → Prop} {p p' : RankM α β} {next next' : β → RankM α γ} {Q : β → Rank α → Prop}
  {R : γ → Rank α → Prop}

/-- Where a computation succeeds that started on a rank with a property, its result and the rank have another. -/
def Leads (P : Rank α → Prop) (p : RankM α β) (Q : β → Rank α → Prop) : Prop :=
  ∀ r, P r → (p.run.run r).Always fun ended => ∀ b, ended.1 = .ok b → Q b ended.2

/-- Two computations make the same requests and come to the same on every rank with a property. -/
def Same (P : Rank α → Prop) (p p' : RankM α β) : Prop := ∀ r, P r → p.run.run r = p'.run.run r

theorem Leads.bind (first : Leads P p Q) (second : ∀ b, Leads (Q b) (next b) R) : Leads P (p >>= next) R := by
  intro r holds
  rw [run_bind]
  refine (first r holds).bind fun ended result => ?_
  obtain ⟨outcome, r'⟩ := ended
  cases outcome with
  | ok b => exact second b r' (result b rfl)
  | error e => exact fun _ failed => nomatch failed

theorem Leads.weaken (first : Leads P p Q) {Q' : β → Rank α → Prop} (weaker : ∀ b r, Q b r → Q' b r) : Leads P p Q' :=
  fun r holds => (first r holds).mono fun _ result b found => weaker b _ (result b found)

theorem Leads.narrow (first : Leads P p Q) {P' : Rank α → Prop} (narrower : ∀ r, P' r → P r) : Leads P' p Q :=
  fun r holds => first r (narrower r holds)

/-- What a rank is known to have may come with a fact about results so far. -/
theorem Leads.of_fact {fact : Prop} (under : fact → Leads P p Q) : Leads (fun r => P r ∧ fact) p Q :=
  fun r holds => under holds.2 r holds.1

theorem Leads.of_exists {ι : Type} {P : ι → Rank α → Prop} (each : ∀ i, Leads (P i) p Q) : Leads (fun r => ∃ i, P i r) p Q :=
  fun r ⟨i, holds⟩ => each i r holds

theorem leads_pure {b : β} (result : ∀ r, P r → Q b r) : Leads P (pure b) Q :=
  fun r holds _ found => Except.ok.inj found ▸ result r holds

theorem leads_throw (e : Failure) : Leads P (throw e : RankM α β) Q := fun _ _ _ failed => nomatch failed

theorem leads_ofOutcome {outcome : Outcome β} (result : ∀ r b, P r → outcome = .ok b → Q b r) :
    Leads P (ofOutcome outcome) Q := fun r holds b found => result r b holds found

theorem leads_foldlM {ι : Type} {items : List ι} {step : β → ι → RankM α β}
    (each : ∀ b i, Leads P (step b i) fun _ r => P r) (b : β) : Leads P (items.foldlM step b) fun _ r => P r := by
  induction items generalizing b with
  | nil => exact leads_pure fun _ holds => holds
  | cons i rest ih => exact (each b i).bind ih

theorem leads_components {part : Axis → RankM α β} {Good : Axis → β → Prop}
    (each : ∀ a, Leads P (part a) fun b r => P r ∧ Good a b) (covariant : Bool) : Leads P (do
      let x ← part .x
      let y ← part .y
      let z ← part .z
      return (⟨x, y, z, covariant⟩ : Vector3 β)) fun w r => P r ∧ ∀ a, Good a (w.component a) := by
  refine Leads.bind (each .x) fun x => Leads.of_fact fun goodX => ?_
  refine Leads.bind (each .y) fun y => Leads.of_fact fun goodY => ?_
  refine Leads.bind (each .z) fun z => Leads.of_fact fun goodZ => leads_pure fun r holds => ⟨holds, fun a => ?_⟩
  cases a with
  | x => exact goodX
  | y => exact goodY
  | z => exact goodZ

theorem Same.bind (first : Leads P p Q) (same : Same P p p') (second : ∀ b, Same (Q b) (next b) (next' b)) :
    Same P (p >>= next) (p' >>= next') := by
  intro r holds
  rw [run_bind, run_bind, ← same r holds]
  refine (first r holds).bind_congr fun ended result => ?_
  obtain ⟨outcome, r'⟩ := ended
  cases outcome with
  | ok b => exact second b r' (result b rfl)
  | error e => rfl

theorem Same.refl (p : RankM α β) : Same P p p := fun _ _ => rfl

theorem Leads.mapError (first : Leads P p Q) (change : Failure → Failure) :
    Leads P (ExceptT.mk do return (← p.run).mapError change) Q := by
  intro r holds
  change ((p.run.run r).bind fun ended => finished (ended.1.mapError change, ended.2)).Always _
  refine (first r holds).bind fun ended result => ?_
  obtain ⟨outcome, r'⟩ := ended
  cases outcome with
  | ok b' => exact result
  | error e => exact fun _ failed => nomatch failed

theorem Leads.insist (first : Leads P p Q) : Leads P (insist p) Q := first.mapError _

theorem Leads.labelled (first : Leads P p Q) (activity : Activity) : Leads P (labelled activity p) Q := first.mapError _

/-- A rank that talks to others stays as it is. -/
theorem leads_talk (talk : Program (Array α) β) : Leads P (RankM.talk talk) fun _ r => P r := by
  intro r holds
  change ((talk.bind fun b => finished (b, r)).bind fun told => finished (Except.ok told.1, told.2)).Always _
  rw [bind_bind]
  exact (Always.of_all (P := fun _ => True) fun _ => trivial).bind fun _ _ _ _ => holds

theorem leads_tryTalk (talk : Program (Array α) (Except Error β)) : Leads P (tryTalk talk) fun _ r => P r :=
  (leads_talk talk).bind fun _ => leads_ofOutcome fun _ _ holds _ => holds

/-- A computation that leaves a rank with what it had. -/
def Stays (P : Rank α → Prop) (p : RankM α β) : Prop := Leads P p fun _ r => P r

theorem Stays.bind (first : Stays P p) (second : ∀ b, Stays P (next b)) : Stays P (p >>= next) :=
  Leads.bind first second

theorem stays_pure (b : β) : Stays P (pure b) := leads_pure fun _ kept => kept

theorem stays_throw (e : Failure) : Stays P (throw e : RankM α β) := leads_throw e

theorem stays_ofOutcome (outcome : Outcome β) : Stays P (ofOutcome outcome) := leads_ofOutcome fun _ _ kept _ => kept

theorem stays_mesh : Stays P (mesh : RankM α (Mesh α)) := fun _ kept _ _ => kept

theorem stays_warn (warned : ∀ (r : Rank α) warnings, P r → P { r with warnings }) (message : String) :
    Stays P (warn message) := fun r kept _ _ => warned r _ kept

theorem stays_ofFunctionM {make : Pair → RankM α β} (each : ∀ p, Stays P (make p)) : Stays P (Symmetric.ofFunctionM make) :=
  (each .p11).bind fun _ => (each .p22).bind fun _ => (each .p33).bind fun _ => (each .p12).bind fun _ =>
    (each .p13).bind fun _ => (each .p23).bind fun _ => stays_pure _

theorem run_mesh_bind {r : Rank α} {m : Mesh α} (own : r.mesh = m) (next : Mesh α → RankM α β) :
    (mesh >>= next).run.run r = (next m).run.run r := by
  rw [← own]
  rfl

theorem run_ofOutcome_bind (b : β) (next : β → RankM α γ) (r : Rank α) :
    (ofOutcome (.ok b) >>= next).run.run r = (next b).run.run r := rfl

/-- What would come after a failure does not matter. -/
theorem run_failed_bind (e : Failure) (next next' : β → RankM α γ) (r : Rank α) :
    (ofOutcome (.error e) >>= next).run.run r = (ofOutcome (.error e) >>= next').run.run r := rfl

end RankM

/-- A rank with a mesh on a grid that is aligned as it stands. -/
structure Rank.Unshifted {α : Type} [Scalar α] (r : Rank α) (m : Mesh α) : Prop where
  mesh : r.mesh = m
  identity : r.transform = some .identity ∨ r.transform = none ∧ transformName m.options ≠ "shifted"

namespace RankM

variable {α β : Type} [Scalar α] {m : Mesh α} {r : Rank α} {P : Rank α → Prop}

/-- A rank that has made its parallel transform, which is none. -/
def settled (r : Rank α) : Rank α := { r with transform := some .identity }

theorem parallelTransform_run (kept : r.Unshifted m) :
    parallelTransform.run.run r = .finished (.ok .identity, settled r) := by
  have state : (get : RankM α (Rank α)).run.run r = .finished (.ok r, r) := rfl
  unfold parallelTransform
  rw [run_bind, state]
  rcases kept.identity with chosen | ⟨none, plain⟩
  · have same : settled r = r := by
      rw [settled, ← chosen]
    rw [same]
    simp only [Program.bind, chosen]
    rfl
  · rw [← kept.mesh] at plain
    simp only [Program.bind, none, if_neg plain]
    rfl

theorem settled_unshifted (kept : r.Unshifted m) : (settled r).Unshifted m := ⟨kept.mesh, .inl rfl⟩

theorem run_toAligned_bind (kept : r.Unshifted m) (f : Field α) (next : Field α → RankM α β) :
    (toAligned f >>= next).run.run r = (next (f.setAligned true)).run.run (settled r) := by
  rw [run_bind]
  unfold toAligned
  rw [run_bind, parallelTransform_run kept]
  rfl

/-! Making the metric. -/

theorem stays_exchanged (fields : List (Field α)) : Stays P (exchanged fields) :=
  stays_mesh.bind fun _ => leads_tryTalk _

theorem stays_gridField (name : String) (dflt : α) : Stays P (gridField name dflt) := by
  unfold gridField
  refine stays_mesh.bind fun m' => (stays_ofOutcome _).bind fun found => ?_
  obtain ⟨f, e⟩ := found
  cases e with
  | none => exact stays_pure f
  | some e =>
    dsimp only
    split
    · exact stays_pure f
    · exact stays_throw _

theorem leads_exchangedQuantities (qs : List Quantity) (c : Coordinates α) :
    Leads P (exchangedQuantities qs c) fun c' r => P r ∧ c'.loc = c.loc :=
  Leads.bind (stays_exchanged _) fun fields => leads_pure fun _ kept => ⟨kept, (c.setAll_tags qs fields).1⟩

section Warned

variable (warned : ∀ (r : Rank α) warnings, P r → P { r with warnings })
include warned

theorem stays_gridOrComputed (name warning : String) (computed : Field α) :
    Stays P (gridOrComputed name warning computed) := by
  unfold gridOrComputed
  refine stays_mesh.bind fun m' => (stays_ofOutcome _).bind fun found => ?_
  obtain ⟨f, e⟩ := found
  cases e with
  | none =>
    dsimp only
    split
    · exact (stays_warn warned _).bind fun _ => stays_pure f
    · exact stays_pure f
  | some e =>
    dsimp only
    split
    · exact stays_pure computed
    · exact stays_throw _

theorem leads_readMetric : Leads P readMetric fun c r => P r ∧ c.loc = .centre := by
  unfold readMetric
  refine Leads.bind stays_mesh fun _ => ?_
  refine Leads.bind (stays_gridField _ _) fun _ => Leads.bind (stays_gridField _ _) fun _ => ?_
  refine Leads.bind (stays_ofFunctionM fun p => stays_gridField _ _) fun _ => ?_
  refine Leads.bind (stays_gridField _ _) fun _ => Leads.bind (stays_gridField _ _) fun _ => ?_
  refine Leads.bind (stays_ofOutcome _) fun _ => Leads.bind (stays_gridOrComputed warned _ _ _) fun _ => ?_
  refine Leads.bind (stays_ofOutcome _) fun _ => Leads.bind (stays_gridOrComputed warned _ _ _) fun _ => ?_
  exact leads_pure fun _ kept => ⟨kept, rfl⟩

end Warned

theorem withGeometry_loc {m : Mesh α} {c c' : Coordinates α} (made : c.withGeometry m = .ok c') : c'.loc = c.loc := by
  obtain ⟨_, -, rest⟩ := Outcome.bind_eq_ok.mp made
  obtain ⟨_, -, rest⟩ := Outcome.bind_eq_ok.mp rest
  obtain ⟨_, -, rest⟩ := Outcome.bind_eq_ok.mp rest
  obtain ⟨_, -, rest⟩ := Outcome.bind_eq_ok.mp rest
  cases rest
  rfl

theorem leads_computeGeometry (c : Coordinates α) :
    Leads P (computeGeometry (fun _ => pure ()) c) fun c' r => P r ∧ c'.loc = c.loc := by
  unfold computeGeometry
  refine Leads.bind stays_mesh fun _ => Leads.bind ((leads_exchangedQuantities _ c).labelled _) fun first => ?_
  refine Leads.of_fact fun same => Leads.bind (stays_pure ()) fun _ => Leads.bind (stays_ofOutcome _) fun _ => ?_
  refine Leads.bind (leads_ofOutcome fun _ _ kept made => And.intro kept made) fun second => Leads.of_fact fun made => ?_
  refine Leads.bind (stays_pure ()) fun _ => Leads.bind ((leads_exchangedQuantities _ second).labelled _) fun third => ?_
  refine Leads.of_fact fun same' => Leads.bind (stays_pure ()) fun _ => leads_pure fun _ kept => ⟨kept, ?_⟩
  rw [same', withGeometry_loc made, same]

theorem leads_makeCentre (warned : ∀ (r : Rank α) warnings, P r → P { r with warnings }) :
    Leads P makeCentre fun c r => P r ∧ c.loc = .centre := by
  refine Leads.bind (leads_readMetric warned) fun c => Leads.of_fact fun here => ?_
  exact ((leads_computeGeometry c).labelled _).weaken fun c' r kept => ⟨kept.1, kept.2.trans here⟩

end RankM

end HaloMesh
