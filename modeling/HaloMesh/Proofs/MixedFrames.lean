import HaloMesh.Proofs.FluxDivergence
import HaloMesh.Proofs.VectorIdentities

/-! Flow derivatives of operands in different frames. What carries a field looks at the frame of the velocity only, so that a
mix goes unnoticed where nothing happens to combine the two. It then comes to what the velocity and a field in its frame
come to. -/

namespace HaloMesh
open Transport Program

theorem Transport.Program.Path.of_silent {μ β : Type} {p q : Program μ β} (path : Path p [] q) : p = q := by
  cases path
  rfl

variable {α β γ : Type} [Scalar α]

namespace Field

variable {f g : Field α}

omit [Scalar α] in
theorem withData_setAligned (f : Field α) (frame : Bool) (data : Array α) :
    (f.setAligned frame).withData data = (fun d => d.setAligned frame) <$> f.withData data := by
  unfold withData
  by_cases same : data.size = f.data.size
  · rw [dif_pos same, dif_pos (show data.size = (f.setAligned frame).data.size from same)]
    rfl
  · rw [dif_neg same, dif_neg (show data.size ≠ (f.setAligned frame).data.size from same)]
    rfl

theorem dividedBy_setAligned (f g : Field α) (frame : Bool) :
    (f.setAligned frame).dividedBy g = (fun d => d.setAligned frame) <$> f.dividedBy g := by
  unfold dividedBy
  change (if !f.sameShape g ∨ f.loc ≠ g.loc then _ else _) = _
  split
  · rfl
  · exact f.withData_setAligned frame _

end Field

namespace Mesh

variable {m : Mesh α} {axis : Axis} {kind : Kind} {method : Method} {place : Placement} {v f d : Field α}

theorem applyFlow_setAligned (m : Mesh α) (axis : Axis) (k : Kernel α) (o : Offset) (v f : Field α) (frame : Bool) :
    m.applyFlow axis k o v (f.setAligned frame) = (fun d => d.setAligned frame) <$> m.applyFlow axis k o v f := by
  unfold applyFlow
  simp only [map_bind, ← Field.withData_setAligned]
  rfl

theorem flow_unshaped (differ : v.extents ≠ f.extents) :
    m.flow axis kind v f place method = Outcome.raise .flowShapesDiffer := by
  have shape : v.sameShape f = false := decide_eq_false differ
  rw [flow, shape]
  rfl

omit [Scalar α] in
theorem flowPlan_staggered {plan : Bool × Offset} (planned : m.flowPlan axis v f place = .ok plan) :
    plan.1 = decide (v.loc ≠ f.loc) := by
  unfold flowPlan at planned
  split at planned
  · cases planned
  split at planned
  next together =>
    cases planned
    exact (decide_eq_false (not_not.mpr together)).symm
  next apart =>
    have off : decide (v.loc ≠ f.loc) = true := decide_eq_true apart
    split at planned
    · cases planned
    split at planned
    · cases planned
      exact off.symm
    split at planned
    · cases planned
      exact off.symm
    · cases planned

/-- Whether a flow derivative is put together from others. Along an axis with a single point none is taken. -/
def Splits (m : Mesh α) (axis : Axis) (kind : Kind) (method : Method) (v f : Field α) : Prop :=
  m.axisSize axis ≠ 1 ∧ ∃ k, m.kernel axis ⟨kind, decide (v.loc ≠ f.loc)⟩ method = .ok k ∧ k.isSplit = true

theorem flow_alike (taken : m.flow axis kind v f place method = .ok d) : Field.Alike f d := by
  by_cases shaped : v.extents = f.extents
  swap
  · rw [flow_unshaped shaped] at taken
    cases taken
  rw [flow_bind shaped] at taken
  obtain ⟨plan, -, taken⟩ := Outcome.bind_eq_ok.mp taken
  split at taken
  · cases taken
    exact f.alike_zeroLike
  obtain ⟨k, -, taken⟩ := Outcome.bind_eq_ok.mp taken
  split at taken
  · obtain ⟨upwind, -, taken⟩ := Outcome.bind_eq_ok.mp taken
    obtain ⟨advected, carried, taken⟩ := Outcome.bind_eq_ok.mp taken
    obtain ⟨dv, -, taken⟩ := Outcome.bind_eq_ok.mp taken
    obtain ⟨product, -, added⟩ := Outcome.bind_eq_ok.mp taken
    obtain ⟨_, -, made⟩ := Outcome.bind_eq_ok.mp added
    exact (applyFlow_alike carried).trans (Field.withData_ok made).2
  · exact applyFlow_alike taken

/-- A split flow derivative multiplies the field by the slope of the velocity, which is in the frame of the velocity. -/
theorem aligned_of_splits (splits : m.Splits axis kind method v f) (taken : m.flow axis kind v f place method = .ok d) :
    v.aligned = f.aligned := by
  obtain ⟨several, k, made, split⟩ := splits
  by_cases shaped : v.extents = f.extents
  swap
  · rw [flow_unshaped shaped] at taken
    cases taken
  rw [flow_bind shaped] at taken
  obtain ⟨plan, planned, taken⟩ := Outcome.bind_eq_ok.mp taken
  rw [if_neg several, flowPlan_staggered planned, made] at taken
  change (if k.isSplit then _ else _) = _ at taken
  rw [if_pos split] at taken
  obtain ⟨upwind, -, taken⟩ := Outcome.bind_eq_ok.mp taken
  obtain ⟨advected, -, taken⟩ := Outcome.bind_eq_ok.mp taken
  obtain ⟨dv, sloped, taken⟩ := Outcome.bind_eq_ok.mp taken
  obtain ⟨product, multiplied, -⟩ := Outcome.bind_eq_ok.mp taken
  exact (derivative_alike sloped).aligned.symm.trans (Field.combine_ok multiplied).2.2.2

/-- Any other flow derivative takes the field as it stands. -/
theorem flow_setAligned (whole : ¬ m.Splits axis kind method v f) (place : Placement) (frame : Bool) :
    m.flow axis kind v (f.setAligned frame) place method =
      (fun d => d.setAligned frame) <$> m.flow axis kind v f place method := by
  by_cases shaped : v.extents = f.extents
  swap
  · rw [flow_unshaped shaped, flow_unshaped (f := f.setAligned frame) shaped]
    rfl
  rw [flow_bind shaped, flow_bind (f := f.setAligned frame) shaped]
  change (m.flowPlan axis v f place >>= _) = _
  cases planned : m.flowPlan axis v f place with
  | error e => rfl
  | ok plan =>
    change (if m.axisSize axis = 1 then _ else _) =
      (fun d : Field α => d.setAligned frame) <$> (if m.axisSize axis = 1 then _ else _)
    split
    · rfl
    next several =>
      cases made : m.kernel axis ⟨kind, plan.1⟩ method with
      | error e => rfl
      | ok k =>
        have alone : k.isSplit = false := by
          rw [flowPlan_staggered planned] at made
          exact Bool.eq_false_iff.mpr fun split => whole ⟨several, k, made, split⟩
        change (if k.isSplit = true then _ else _) =
          (fun d : Field α => d.setAligned frame) <$> (if k.isSplit = true then _ else _)
        rw [alone]
        exact m.applyFlow_setAligned axis k plan.2 v f frame

end Mesh

/-- Whether a flow derivative finds out that its operands are in different frames. Along y a velocity in the standard frame
is brought to the aligned one, and the field with it, which only a shifted grid refuses to do to a field that is there
already. Otherwise only a derivative that is put together from others combines the two. -/
def Rank.SeesFrames (r : Rank α) (axis : Axis) (kind : Kind) (method : Method) (v f : Field α) : Prop :=
  if axis = .y ∧ v.aligned = false then ¬ r.Unshifted r.mesh else r.mesh.Splits axis kind method v f

namespace RankM

variable {m : Mesh α} {axis : Axis} {kind : Kind} {v f : Field α} {s : Scheme}

omit [Scalar α] in
theorem map_ofOutcome (change : β → γ) (outcome : Outcome β) :
    (ofOutcome (change <$> outcome) : RankM α γ) = change <$> ofOutcome outcome := by
  cases outcome <;> rfl

omit [Scalar α] in
theorem leads_any {P : Rank α → Prop} {p : RankM α β} : Leads P p fun _ _ => True :=
  fun _ _ => Always.of_all fun _ _ _ => trivial

omit [Scalar α] in
theorem Leads.of_known {fact : Prop} {p : RankM α β} {Q : β → Rank α → Prop} (under : fact → Leads (fun _ => True) p Q) :
    Leads (fun _ => fact) p Q := fun r known => under known r trivial

theorem scaled_setAligned (axis : Axis) (f : Field α) (frame : Bool) :
    scaled axis 1 (f.setAligned frame) = (fun d => d.setAligned frame) <$> scaled axis 1 f := by
  unfold scaled
  rw [map_bind]
  refine bind_congr fun c => ?_
  cases axis with
  | x | y => simp only [Field.dividedRepeatedly_one, Field.dividedBy_setAligned, map_ofOutcome]
  | z => rfl

theorem leads_scaled_alike {P : Rank α → Prop} (axis : Axis) (f : Field α) :
    Leads P (scaled axis 1 f) fun d _ => Field.Alike f d := by
  unfold scaled
  refine leads_any.bind fun c => ?_
  have divided (g : Field α) : Leads (fun _ : Rank α => True) (ofOutcome (Field.dividedRepeatedly g 1 f))
      fun d _ => Field.Alike f d := by
    refine leads_ofOutcome fun _ d _ taken => ?_
    rw [Field.dividedRepeatedly_one] at taken
    exact Field.dividedBy_alike taken
  cases axis with
  | x => exact divided c.dx
  | y => exact divided c.dy
  | z => exact leads_pure fun _ _ => ⟨rfl, rfl, rfl, Array.size_map .., rfl, rfl⟩

theorem run_fromAligned_bind {r : Rank α} (kept : r.Unshifted m) (f : Field α) (next : Field α → RankM α β) :
    (fromAligned f >>= next).run.run r = (next (f.setAligned false)).run.run (settled r) := by
  rw [run_bind]
  unfold fromAligned
  rw [run_bind, parallelTransform_run kept]
  rfl

omit [Scalar α] in
theorem run_map (change : β → γ) (p : RankM α β) (r : Rank α) :
    (change <$> p).run.run r = (p.run.run r).bind fun ended => .finished (change <$> ended.1, ended.2) := by
  rw [← bind_pure_comp, run_bind]
  refine congrArg (Program.bind _) (funext fun ended => ?_)
  obtain ⟨outcome, r'⟩ := ended
  cases outcome <;> rfl

/-- A rank whose grid is shifted has a transform that moves fields, from the first one on. -/
theorem leads_parallelTransform_shifted : Leads (fun r : Rank α => ¬ r.Unshifted r.mesh) parallelTransform
    fun t r => t ≠ .identity ∧ ¬ r.Unshifted r.mesh := by
  have kept (t : ParallelTransform α) (moves : t ≠ .identity) : Leads (fun _ : Rank α => True) (do
      modify fun r => { r with transform := some t }
      return t) fun t r => t ≠ .identity ∧ ¬ r.Unshifted r.mesh := by
    intro r _ t' found
    obtain rfl := Except.ok.inj found
    refine ⟨moves, fun kept => ?_⟩
    rcases kept.identity with same | ⟨none, -⟩
    · exact moves (Option.some.inj same)
    · cases none
  unfold parallelTransform
  refine Leads.bind (Q := fun found r => found = r ∧ ¬ r.Unshifted r.mesh)
    (fun r shifted found same => ⟨(Except.ok.inj same).symm, shifted⟩) fun r => ?_
  cases chosen : r.transform with
  | some t =>
    refine leads_pure fun r' here => ?_
    obtain ⟨rfl, shifted⟩ := here
    exact ⟨fun same => shifted ⟨rfl, .inl (chosen.trans (congrArg some same))⟩, shifted⟩
  | none =>
    have make (zShift : Field α) :=
      (leads_any (P := fun _ : Rank α => True) (p := ofOutcome (ShiftedMetric.make zShift r.mesh.zLength))).bind
        fun metric => kept (.shifted metric) nofun
    have warned (message : String) (zShift : Field α) :=
      (leads_any (P := fun _ : Rank α => True) (p := warn message)).bind fun _ => make zShift
    dsimp only
    split
    · refine leads_any.bind fun found => ?_
      obtain ⟨zShift, missing⟩ := found
      cases missing with
      | none => exact make zShift
      | some e =>
        dsimp only
        split
        · exact Leads.bind (leads_throw _) fun _ => warned _ zShift
        · exact warned _ zShift
    next plain =>
      intro r' here
      obtain ⟨rfl, shifted⟩ := here
      exact absurd ⟨rfl, .inr ⟨chosen, plain⟩⟩ shifted

/-- A grid that is not aligned as it stands refuses fields that are in the aligned frame already. -/
theorem leads_toAligned_shifted (already : f.aligned = true) :
    Leads (fun r => ¬ r.Unshifted r.mesh) (toAligned f) fun _ _ => False := by
  refine Leads.bind leads_parallelTransform_shifted fun t => leads_ofOutcome fun r d turned taken => ?_
  cases t with
  | identity => exact turned.1 rfl
  | shifted metric =>
    rw [ParallelTransform.toAligned, ParallelTransform.toAlignedBy, already] at taken
    cases taken

theorem flow_along (carried : ¬ (axis = .y ∧ v.aligned = false)) : flow axis kind v f s = (do
    let m ← mesh
    let d ← ofOutcome (m.flow axis kind v f s.place s.method)
    scaled axis 1 d) := by
  have frame : (axis = .y && !v.aligned) = false := by simpa using carried
  unfold flow
  rw [frame]
  rfl

theorem flow_across (turned : axis = .y ∧ v.aligned = false) : flow axis kind v f s = (do
    let m ← mesh
    let v ← toAligned v
    let f ← toAligned f
    let d ← ofOutcome (m.flow axis kind v f s.place s.method)
    let d ← fromAligned d
    scaled axis 1 d) := by
  have frame : (axis = .y && !v.aligned) = true := by simpa using turned
  unfold flow
  simp only [frame, ↓reduceIte]

theorem leads_toAligned {P : Rank α → Prop} (f : Field α) :
    Leads P (toAligned f) fun g _ => Field.Alike (f.setAligned true) g :=
  leads_any.bind fun _ => leads_ofOutcome fun _ _ _ taken => ParallelTransform.toAligned_alike taken

theorem leads_fromAligned {P : Rank α → Prop} (f : Field α) :
    Leads P (fromAligned f) fun g _ => Field.Alike (f.setAligned false) g :=
  leads_any.bind fun _ => leads_ofOutcome fun _ _ _ taken => ParallelTransform.fromAligned_alike taken

/-- A flow derivative of operands in one frame is in this frame, at the place of the field. -/
theorem leads_flow {P : Rank α → Prop} (together : v.aligned = f.aligned) :
    Leads P (flow axis kind v f s) fun d _ => Field.Alike f d := by
  by_cases turned : axis = .y ∧ v.aligned = false
  · rw [flow_across turned]
    refine leads_any.bind fun m => leads_any.bind fun v' => (leads_toAligned f).bind fun g => ?_
    refine Leads.bind (Q := fun d _ => Field.Alike (f.setAligned true) d) (leads_ofOutcome fun _ d like taken => ?_)
      fun d => ?_
    · exact like.trans (Mesh.flow_alike taken)
    refine Leads.of_known fun like => (leads_fromAligned d).bind fun e => Leads.of_known fun back => ?_
    have plain : f.aligned = false := together.symm.trans turned.2
    have whole : Field.Alike f e := ⟨back.nx.trans like.nx, back.ny.trans like.ny, back.nz.trans like.nz,
      back.size.trans like.size, back.loc.trans like.loc, back.aligned.trans plain.symm⟩
    exact (leads_scaled_alike axis e).weaken fun d _ last => whole.trans last
  · rw [flow_along turned]
    refine leads_any.bind fun m => Leads.bind (Q := fun d _ => Field.Alike f d) (leads_ofOutcome fun _ d _ taken => ?_)
      fun d => ?_
    · exact Mesh.flow_alike taken
    exact Leads.of_known fun like => (leads_scaled_alike axis d).weaken fun e _ last => like.trans last

/-- What a flow derivative comes to in another frame. -/
theorem map_scaled (d : Field α) (frame frame' : Bool) :
    (fun e => e.setAligned frame') <$> scaled axis 1 (d.setAligned frame) = scaled axis 1 (d.setAligned frame') := by
  rw [scaled_setAligned, scaled_setAligned, Functor.map_map]
  rfl

/-- Along y the operands of a mix are both brought to the aligned frame, and what they come to is brought back. -/
theorem flow_across_mixed {r : Rank α} (turned : axis = .y ∧ v.aligned = false) (kept : r.Unshifted r.mesh) :
    (flow axis kind v f s).run.run r =
      ((fun d => d.setAligned false) <$> flow axis kind v (f.setAligned v.aligned) s).run.run r := by
  rw [flow_across turned, flow_across turned]
  simp only [map_bind]
  rw [run_mesh_bind rfl, run_mesh_bind rfl]
  have kept' := settled_unshifted kept
  rw [run_toAligned_bind kept, run_toAligned_bind kept, run_toAligned_bind kept', run_toAligned_bind kept',
    show (f.setAligned v.aligned).setAligned true = f.setAligned true from rfl]
  cases r.mesh.flow axis kind (v.setAligned true) (f.setAligned true) s.place s.method with
  | error e => exact run_failed_bind e ..
  | ok d =>
    rw [run_ofOutcome_bind, run_ofOutcome_bind, run_fromAligned_bind (settled_unshifted kept'), run_fromAligned_bind (settled_unshifted kept'), map_scaled]

/-- Where nothing looks, a mix is taken as it stands. -/
theorem flow_along_mixed {r : Rank α} (carried : ¬ (axis = .y ∧ v.aligned = false))
    (whole : ¬ r.mesh.Splits axis kind s.method v f) : (flow axis kind v f s).run.run r =
      ((fun d => d.setAligned f.aligned) <$> flow axis kind v (f.setAligned v.aligned) s).run.run r := by
  rw [flow_along carried, flow_along carried]
  simp only [map_bind]
  rw [run_mesh_bind rfl, run_mesh_bind rfl, Mesh.flow_setAligned whole]
  cases taken : r.mesh.flow axis kind v f s.place s.method with
  | error e => exact run_failed_bind e ..
  | ok d =>
    have own : d.setAligned f.aligned = d := by rw [← (Mesh.flow_alike taken).aligned]; rfl
    rw [Except.map_ok, run_ofOutcome_bind, run_ofOutcome_bind, map_scaled, own]

theorem leads_flow_shifted (turned : axis = .y ∧ v.aligned = false) (already : f.aligned = true) :
    Leads (fun r => ¬ r.Unshifted r.mesh) (flow axis kind v f s) fun _ _ => False := by
  rw [flow_across turned]
  have turns : Leads (fun r : Rank α => ¬ r.Unshifted r.mesh) (toAligned v) fun _ r => ¬ r.Unshifted r.mesh :=
    leads_parallelTransform_shifted.bind fun t => leads_ofOutcome fun _ _ shifted _ => shifted.2
  refine Leads.bind (Q := fun _ r => ¬ r.Unshifted r.mesh) (fun r shifted _ _ => shifted) fun m => turns.bind fun v' => ?_
  exact (leads_toAligned_shifted already).bind fun _ _ => False.elim

theorem leads_flow_splits (carried : ¬ (axis = .y ∧ v.aligned = false)) (mixed : v.aligned ≠ f.aligned) :
    Leads (fun r => r.mesh.Splits axis kind s.method v f) (flow axis kind v f s) fun _ _ => False := by
  rw [flow_along carried]
  refine Leads.bind (Q := fun m _ => m.Splits axis kind s.method v f) (fun r splits m found => ?_) fun m => ?_
  · exact Except.ok.inj found ▸ splits
  · refine Leads.bind (Q := fun _ _ => False) (leads_ofOutcome fun _ d splits taken => ?_) fun _ _ => False.elim
    exact mixed (Mesh.aligned_of_splits splits taken)

end RankM

/-- Operands in one frame give a derivative in this frame, at the place of the field. Operands in different frames are
refused where the derivative sees it. Elsewhere they come to what the velocity and a field in its frame come to, with the
same requests, and the result is tagged with the frame of the field, or with the standard one along y. -/
theorem flow_frames (axis : Axis) (kind : Kind) (v f : Field α) (s : Scheme) (r : Rank α) :
    (v.aligned = f.aligned → ((RankM.flow axis kind v f s).run.run r).Always fun ended => ∀ d, ended.1 = .ok d →
      d.loc = f.loc ∧ d.aligned = f.aligned) ∧
    (v.aligned ≠ f.aligned →
      (r.SeesFrames axis kind s.method v f →
        ((RankM.flow axis kind v f s).run.run r).Always fun ended => ∀ d, ended.1 ≠ .ok d) ∧
      (¬ r.SeesFrames axis kind s.method v f → (RankM.flow axis kind v f s).run.run r =
        ((fun d => d.setAligned (decide (axis ≠ .y) && f.aligned)) <$>
          RankM.flow axis kind v (f.setAligned v.aligned) s).run.run r)) := by
  constructor
  · intro together
    have leads : RankM.Leads (fun _ => True) (RankM.flow axis kind v f s) fun d _ => d.loc = f.loc ∧ d.aligned = f.aligned :=
      (RankM.leads_flow together).weaken fun d _ like => ⟨like.loc, like.aligned⟩
    exact leads r trivial
  intro mixed
  by_cases turned : axis = .y ∧ v.aligned = false
  · have already : f.aligned = true := by
      cases frame : f.aligned
      · exact absurd (turned.2.trans frame.symm) mixed
      · rfl
    simp only [Rank.SeesFrames, if_pos turned]
    constructor
    · intro shifted
      exact RankM.leads_flow_shifted turned already r shifted
    · intro kept
      rw [RankM.flow_across_mixed turned (not_not.mp kept), turned.1]
      rfl
  · simp only [Rank.SeesFrames, if_neg turned]
    constructor
    · intro splits
      exact RankM.leads_flow_splits turned mixed r splits
    · intro whole
      have frame : (decide (axis ≠ .y) && f.aligned) = f.aligned := by
        by_cases up : axis = .y
        · have aligned : v.aligned = true := Bool.eq_true_of_not_eq_false fun plain => turned ⟨up, plain⟩
          rw [Bool.eq_false_iff.mpr fun already => mixed (aligned.trans already.symm), Bool.and_false]
        · rw [decide_eq_true up, Bool.true_and]
      rw [RankM.flow_along_mixed turned whole, frame]

/-- A velocity in the aligned frame carries a field in the standard one along x, unless by the split method. -/
theorem flow_frames_unit : ∃ (m : Mesh ℝ) (r r' : Rank ℝ) (d : Field ℝ),
    Mesh.load GridSource.empty staggeredOptions ⟨0, 1⟩ = .ok (m, []) ∧ r.mesh = m ∧
      ((RankM.flow .x .upwind (unitField .centre true) (unitField .centre true) ⟨.c2, .inherit, false⟩).run.run r =
        .finished (.ok d, r') ∧ d.loc = .centre ∧ d.aligned = true) ∧
      (RankM.flow .x .upwind (unitField .centre true) (unitField .centre false) ⟨.c2, .inherit, false⟩).run.run r =
        .finished (.ok (d.setAligned false), r') ∧
      ((RankM.flow .x .flux (unitField .centre true) (unitField .centre false) ⟨.split, .inherit, false⟩).run.run r).Always
        fun ended => ∀ d, ended.1 ≠ .ok d := by
  obtain ⟨m, loaded, -, -, extents⟩ := load_staggered
  have shaped (aligned : Bool) : (unitField .centre aligned).extents = m.extents := extents.symm
  obtain ⟨l, -, given⟩ := Layout.of_load loaded
  have bears (aligned : Bool) : m.Bears (unitField .centre aligned) :=
    Layout.bears (given 0 (by decide) m [] loaded) (unitField_fits .centre aligned) (shaped aligned)
  have made : m.kernel .x ⟨.upwind, false⟩ .c2 = .ok ⟨.c2, ⟨.upwind, false⟩, 1, false, .upwind Kernel.upwindC2⟩ :=
    (Mesh.kernel_reach rfl).1 (Mesh.guards_near loaded .x)
  have unseen (r : Rank ℝ) (own : r.mesh = m) :
      ¬ r.SeesFrames .x .upwind .c2 (unitField .centre true) (unitField .centre false) := by
    rw [Rank.SeesFrames, if_neg (by decide), own]
    rintro ⟨-, k, found, split⟩
    rw [show decide ((unitField .centre true).loc ≠ (unitField .centre false).loc) = false by decide, made] at found
    cases found
    cases split
  have several : m.axisSize .x ≠ 1 := by
    rw [(bears true).axisSize_eq]
    decide
  -- the metric is one at the cell centres
  let metric : Coordinates ℝ := .ofQuantities .centre 1 fun _ => unitField .centre false
  let r : Rank ℝ := { (Rank.ofMesh m []).keeping metric with transform := some .identity }
  have known : r.Knows m metric := ⟨rfl, by simp [Rank.Keeps, r, Rank.keeping, metric, Coordinates.ofQuantities], .inl rfl⟩
  have lies : m.Lies .x (unitField .centre true) (unitField .centre true) .centred := rfl
  have own : Placement.inherit.orElse (unitField .centre true).loc = .real (unitField .centre true).loc := rfl
  have planned := Mesh.flowPlan_lies lies own
  obtain ⟨d, carried, alike, -⟩ := Mesh.flow_values (bears true) rfl (unitField_fits .centre true) planned made rfl rfl
  obtain ⟨e, divided, alike', -⟩ := Field.dividedBy_values (f := d) (g := unitField .centre false)
    (alike.fits (unitField_fits .centre true)) alike.extents.symm alike.loc
  have answers : RankM.Answers m metric
      (RankM.flow .x .upwind (unitField .centre true) (unitField .centre true) ⟨.c2, .inherit, false⟩) (.ok e) := by
    rw [RankM.flow_along (by decide)]
    refine RankM.answers_mesh.bind ((RankM.answers_ofOutcome carried).bind ?_)
    rw [RankM.scaled, alike.loc]
    refine RankM.answers_coordinates.bind (RankM.answers_ofOutcome ?_)
    rw [Field.dividedRepeatedly_one]
    exact divided
  obtain ⟨r', path, -⟩ := answers r known
  have ended := path.of_silent
  have same := (flow_frames .x .upwind (unitField .centre true) (unitField .centre true) ⟨.c2, .inherit, false⟩ r).1 rfl
  have mixed := (flow_frames .x .upwind (unitField .centre true) (unitField .centre false) ⟨.c2, .inherit, false⟩ r).2
    (by decide)
  have split := (flow_frames .x .flux (unitField .centre true) (unitField .centre false) ⟨.split, .inherit, false⟩ r).2
    (by decide)
  refine ⟨m, r, r', e, loaded, rfl, ⟨ended, ?_⟩, ?_, split.1 ?_⟩
  · rw [ended] at same
    exact same e rfl
  · rw [mixed.2 (unseen r rfl), RankM.run_map,
      show (unitField .centre false).setAligned (unitField .centre true).aligned = unitField .centre true from rfl, ended]
    rfl
  · obtain ⟨k, found, apart⟩ := Mesh.kernel_split (Mesh.guards_near loaded .x) false
    rw [Rank.SeesFrames, if_neg (by decide)]
    exact ⟨several, k, found, apart⟩

end HaloMesh
