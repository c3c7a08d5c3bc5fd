import HaloMesh.Proofs.AlikeFields
import HaloMesh.Proofs.KeptCoordinates
import HaloMesh.Proofs.OffAxisDerivative
import HaloMesh.Proofs.UnitFlux

/-! The divergence in conservative form. The flux of ones by a vector is worked out request by request like the divergence of
the vector, whatever the other ranks answer while the metric is made. -/

namespace HaloMesh
open Transport Program

namespace RankM

section Known

variable {α β : Type} [Scalar α] {m : Mesh α} {c : Coordinates α} {p : RankM α β} {v : Vector3 (Field α)}

theorem Answers.leads {b : Outcome β} (answers : Answers m c p b) :
    Leads (fun r => r.Knows m c) p fun b' r => r.Knows m c ∧ b = .ok b' := by
  intro r known
  obtain ⟨r', path, known'⟩ := answers r known
  cases ended : p.run.run r with
  | finished result =>
    rw [ended] at path
    cases path
    exact fun b' found => ⟨known', found⟩
  | post | claim | receive | pending =>
    rw [ended] at path
    cases path

theorem Answers.leads_bind {γ : Type} {b : β} (answers : Answers m c p (.ok b)) {next : β → RankM α γ} {Q : γ → Rank α → Prop}
    (second : Leads (fun r => r.Knows m c) (next b) Q) : Leads (fun r => r.Knows m c) (p >>= next) Q :=
  Leads.bind answers.leads fun _ => Leads.of_fact fun same => Except.ok.inj same ▸ second

theorem leads_convertComponent (c' : Coordinates α) (metric : Coordinates α → Axis → Axis → Field α) (i : Axis)
    (here : (v.component i).loc = .centre) : Leads (fun r => r.Knows m c) (convertComponent c' metric v i)
      fun f r => r.Knows m c ∧ Field.Alike (v.component i) f := by
  have rest (c'' : Coordinates α) : Leads (fun r => r.Knows m c) (do
      let data ← Axis.all.foldlM (fun data j => do
        let vj ← moved (v.component j) (v.component i).loc
        ofOutcome (addProducts data (metric c'' i j).data vj.data)) (v.component i).zeroLike.data
      ofOutcome ((v.component i).withData data)) fun f r => r.Knows m c ∧ Field.Alike (v.component i) f := by
    refine Leads.bind (leads_foldlM (fun data j => ?_) _) fun data => ?_
    · exact Leads.bind (leads_ofOutcome fun _ _ known _ => known) fun vj => leads_ofOutcome fun _ _ known _ => known
    · exact leads_ofOutcome fun _ _ known made => ⟨known, (Field.withData_ok made).2⟩
  unfold convertComponent
  dsimp only
  split
  · exact Leads.bind (leads_pure fun _ known => known) rest
  · rw [here] at rest ⊢
    exact Leads.bind (answers_coordinates.leads.weaken fun _ _ known => known.1) rest

theorem leads_toContravariant (here : ∀ a, (v.component a).loc = .centre) : Leads (fun r => r.Knows m c) (toContravariant c v)
    fun w r => r.Knows m c ∧ ∀ a, Field.Alike (v.component a) (w.component a) := by
  rw [toContravariant]
  split
  · exact leads_components (fun a => leads_convertComponent c Coordinates.contravariantAt a (here a)) false
  · exact leads_pure fun _ known => ⟨known, fun _ => .refl _⟩

theorem leads_weighed {f : Field α} (here : f.loc = .centre) : Leads (fun r => r.Knows m c)
    (coordinatesAt (.real f.loc) >>= fun c => ofOutcome (c.jacobian.mul f))
    fun d r => r.Knows m c ∧ Field.Alike f d ∧ f.aligned = c.jacobian.aligned := by
  rw [here]
  refine answers_coordinates.leads_bind (leads_ofOutcome fun r d known taken => ⟨known, ?_⟩)
  obtain ⟨alike, shaped, loc, aligned⟩ := Field.combine_ok taken
  have like : Field.Alike f c.jacobian := .of_extents shaped.symm loc.symm aligned.symm
  exact ⟨like.trans alike, aligned⟩

/-- The densities of a vector at the cell centres lie there, in the frame of the jacobian that they share. -/
theorem leads_density (here : ∀ a, (v.component a).loc = .centre) : Leads (fun r => r.Unshifted m) (density v)
    fun d r => ∃ c, r.Knows m c ∧ ∀ a, Field.Alike (v.component a) (d.component a) ∧
      (v.component a).aligned = c.jacobian.aligned := by
  have raises : Leads (fun r => r.Unshifted m) (raised v) fun w r => ∃ c, r.Knows m c ∧
      ∀ a, Field.Alike (v.component a) (w.component a) := by
    have place : v.x.loc = .centre := here .x
    unfold raised
    rw [place]
    refine Leads.bind leads_coordinates fun c => ?_
    exact (leads_toContravariant here).weaken fun w r known => ⟨c, known⟩
  unfold density
  refine Leads.bind raises fun w => Leads.of_exists fun c => Leads.of_fact fun alike => ?_
  have weighs (a : Axis) := leads_weighed (m := m) (c := c) ((alike a).loc.trans (here a))
  refine (leads_components weighs w.covariant).weaken fun d r weighed => ⟨c, weighed.1, fun a => ?_⟩
  obtain ⟨like, frame⟩ := weighed.2 a
  exact ⟨(alike a).trans like, (alike a).aligned.symm.trans frame⟩

theorem leads_scaled {f : Field α} (here : f.loc = .centre) (axis : Axis) (order : Nat) :
    Leads (fun r => r.Knows m c) (scaled axis order f) fun _ r => r.Knows m c := by
  unfold scaled
  rw [here]
  refine answers_coordinates.leads_bind ?_
  cases axis with
  | x | y => exact leads_ofOutcome fun _ _ known _ => known
  | z => exact leads_pure fun _ known => known

end Known

section Unit

variable {m : Mesh ℝ} {c : Coordinates ℝ} {axis : Axis} {d one : Field ℝ}
  (chosen : m.defaults.method axis ⟨.first, false⟩ = .c2) (near : axis = .z ∨ 1 ≤ m.guards axis)
  (bears : m.Bears one) (ones : one.Ones) (here : one.loc = .centre) (shaped : d.extents = one.extents)
  (loc : d.loc = .centre) (aligned : d.aligned = one.aligned)
include chosen near bears ones here shaped loc

theorem flux_framed (frame : Bool) : ∃ e, e.loc = .centre ∧
    m.flow axis .flux (d.setAligned frame) (one.setAligned frame) (.real .centre) .c2 = .ok e ∧
    m.derivative axis .first (d.setAligned frame) (.real .centre) .standard false = .ok e := by
  have bears' : m.Bears (one.setAligned frame) := { bears with }
  have fits : d.Fits := by
    obtain ⟨nx, ny, nz⟩ := Field.sizes_congr shaped
    have fits := bears.fits
    rwa [Field.Fits, ← nx, ← ny, ← nz] at fits
  obtain ⟨e, carried, sloped, place⟩ := Mesh.flux_eq_slope (v := d.setAligned frame) bears' shaped fits
    (show m.Lies axis (d.setAligned frame) (one.setAligned frame) .centred from loc.trans here.symm)
    (show (Placement.real .centre).orElse (one.setAligned frame).loc = _ from congrArg Placement.real here.symm) rfl
    (show (d.setAligned frame).aligned = (one.setAligned frame).aligned from rfl) near chosen ones
  rw [show (one.setAligned frame).loc = .centre from here] at sloped place
  exact ⟨e, place, carried, sloped⟩

include aligned

/-- A step of the divergence is one of the flux by ones. Along y the velocity says for both in which frame it is taken. -/
theorem same_along (inc : Bool) : Same (fun r => r.Knows m c) (alongAt axis d (.real .centre))
    (flow axis .flux d one ⟨.c2, .real .centre, inc⟩) := by
  have framed := flux_framed chosen near bears ones here shaped loc
  intro r known
  unfold flow alongAt derivative
  rw [run_mesh_bind known.mesh, run_mesh_bind known.mesh]
  dsimp only
  rw [aligned]
  split
  · obtain ⟨e, -, carried, sloped⟩ := framed true
    have kept : r.Unshifted m := ⟨known.mesh, known.identity⟩
    rw [run_toAligned_bind kept, run_toAligned_bind kept, run_toAligned_bind (settled_unshifted kept), carried, sloped]
    rfl
  · obtain ⟨e, -, carried, sloped⟩ := framed one.aligned
    rw [show d.setAligned one.aligned = d from aligned ▸ rfl] at carried sloped
    rw [show one.setAligned one.aligned = one from rfl] at carried
    rw [carried, sloped]
    rfl

omit aligned in
theorem leads_along : Leads (fun r => r.Knows m c) (alongAt axis d (.real .centre)) fun _ r => r.Knows m c := by
  have framed := flux_framed chosen near bears ones here shaped loc
  unfold alongAt derivative
  refine answers_mesh.leads_bind ?_
  dsimp only
  split
  · obtain ⟨e, place, -, sloped⟩ := framed true
    refine (answers_toAligned d).leads_bind ?_
    refine (answers_ofOutcome sloped).leads_bind ?_
    refine (answers_fromAligned e).leads_bind ?_
    exact leads_scaled (f := e.setAligned false) place axis _
  · obtain ⟨e, place, -, sloped⟩ := framed d.aligned
    rw [show d.setAligned d.aligned = d from rfl] at sloped
    refine (answers_ofOutcome sloped).leads_bind ?_
    exact leads_scaled place axis _

end Unit

/-- The divergence of a vector is the flux of ones by it. -/
theorem same_divergence {m : Mesh ℝ} {v : Vector3 (Field ℝ)} {one : Field ℝ} {place : Placement} (inc : Bool)
    (chosen : ∀ axis, m.defaults.method axis ⟨.first, false⟩ = .c2) (near : ∀ axis, axis = .z ∨ 1 ≤ m.guards axis)
    (bears : m.Bears one) (ones : one.Ones) (here : one.loc = .centre)
    (shaped : ∀ a, (v.component a).extents = m.extents) (loc : ∀ a, (v.component a).loc = .centre)
    (aligned : ∃ a, (v.component a).aligned = one.aligned) (centre : place.orElse .centre = .real .centre) :
    Same (fun r => r.Unshifted m) (divergence v place) (fluxDivergence v one ⟨.c2, place, inc⟩) := by
  unfold divergence fluxDivergence
  dsimp only
  rw [centre]
  refine Same.bind (leads_density loc) (Same.refl _) fun d => ?_
  intro r found
  obtain ⟨c, known, dense⟩ := found
  obtain ⟨b, frame⟩ := aligned
  have like (a : Axis) : ((d.component a).extents = one.extents ∧ (d.component a).loc = .centre) ∧
      (d.component a).aligned = one.aligned :=
    ⟨⟨(dense a).1.extents.trans ((shaped a).trans bears.shaped.symm), (dense a).1.loc.trans (loc a)⟩,
      (dense a).1.aligned.trans ((dense a).2.trans ((dense b).2.symm.trans frame))⟩
  have leads (a : Axis) := leads_along (c := c) (chosen a) (near a) bears ones here (like a).1.1 (like a).1.2
  have same (a : Axis) :=
    same_along (c := c) (chosen a) (near a) bears ones here (like a).1.1 (like a).1.2 (like a).2 inc
  have rest : Same (fun r => r.Knows m c) (do
      let x ← alongAt .x d.x (.real .centre)
      let y ← alongAt .y d.y (.real .centre)
      let xy ← ofOutcome (x.add y)
      let z ← alongAt .z d.z (.real .centre)
      overJacobian (← ofOutcome (xy.add z)) (.real .centre)) (do
      let x ← flow .x .flux d.x one ⟨.c2, .real .centre, inc⟩
      let y ← flow .y .flux d.y one ⟨.c2, .real .centre, inc⟩
      let xy ← ofOutcome (x.add y)
      let z ← flow .z .flux d.z one ⟨.c2, .real .centre, inc⟩
      overJacobian (← ofOutcome (xy.add z)) (.real .centre)) := by
    refine Same.bind (leads .x) (same .x) fun x => Same.bind (leads .y) (same .y) fun y => ?_
    refine Same.bind (leads_ofOutcome fun _ _ known _ => known) (Same.refl _) fun xy => ?_
    exact Same.bind (leads .z) (same .z) fun z => Same.refl _
  exact rest r known

end RankM

/-- Fluxes agree with derivatives of the velocity, and the flux of a vector by ones with its divergence: on a loaded mesh
they make the same requests and come to the same, also where the metric cannot be had. -/
theorem fluxes_agree_with_derivatives (source : GridSource ℝ) {options : Options ℝ} {i count : Nat} {m : Mesh ℝ}
    {messages : List String} (inside : i < count) (loaded : Mesh.load source options ⟨i, count⟩ = .ok (m, messages)) :
    (∀ (axis : Axis) (o : Offset) (v f : Field ℝ) (place : Placement), v.Fits → v.extents = m.extents → f.Fits →
      f.extents = m.extents → m.Lies axis v f o → place.orElse f.loc = .real f.loc → m.FluxAgrees axis o v f place) ∧
    ((∀ axis, m.defaults.method axis ⟨.first, false⟩ = .c2) →
      ∀ (v : Vector3 (Field ℝ)) (one : Field ℝ) (place : Placement) (inc : Bool), one.Fits → one.extents = m.extents →
        one.loc = .centre → one.Ones → (∀ a, (v.component a).extents = m.extents ∧ (v.component a).loc = .centre) →
        (∃ a, (v.component a).aligned = one.aligned) → place.orElse .centre = .real .centre →
        ∀ r : Rank ℝ, r.Unshifted m →
          (RankM.fluxDivergence v one ⟨.c2, place, inc⟩).run.run r = (RankM.divergence v place).run.run r) := by
  constructor
  · intro axis o v f place fitsV shapedV fits shaped lies own
    exact Mesh.flux_agrees inside loaded fits shaped fitsV shapedV lies own
  · intro chosen v one place inc fits shaped here ones centred aligned centre r kept
    obtain ⟨l, rfl, given⟩ := Layout.of_load loaded
    have bears := Layout.bears (given i inside m messages loaded) fits shaped
    exact (RankM.same_divergence inc chosen (Mesh.guards_near loaded) bears ones here (fun a => (centred a).1)
      (fun a => (centred a).2) aligned centre r kept).symm

/-! Ones over six columns of three rows and four points in z. -/

noncomputable def unitField (loc : Location) (aligned : Bool) : Field ℝ :=
  { nx := 6, ny := 3, nz := 4, data := Array.replicate 72 1, loc, aligned
    data_size := by rw [Array.size_replicate]; rfl }

theorem unitField_fits (loc : Location) (aligned : Bool) : (unitField loc aligned).Fits := by
  change ((6 * 3 * 4 : Nat) : Int) ≤ Index.storageLimit
  decide

theorem unitField_ones (loc : Location) (aligned : Bool) : (unitField loc aligned).Ones := by
  intro x y z has
  have found := Field.getElem?_place (unitField_fits loc aligned) has
  change (Array.replicate 72 (1 : ℝ))[_]? = _ at found
  rw [Array.getElem?_replicate] at found
  split at found
  · exact (Option.some.inj found).symm
  · cases found

theorem staggered_defaults {m : Mesh ℝ} {messages : List String}
    (loaded : Mesh.load GridSource.empty staggeredOptions ⟨0, 1⟩ = .ok (m, messages)) (axis : Axis) :
    m.defaults.method axis ⟨.upwind, true⟩ = .u1 ∧ m.defaults.method axis ⟨.first, true⟩ = .c2 ∧
      m.defaults.method axis ⟨.first, false⟩ = .c2 := by
  have plain : staggeredOptions.Plain := by
    intro entry member inner same
    simp only [staggeredOptions, List.mem_cons, List.not_mem_nil, or_false] at member
    rcases member with rfl | rfl | rfl | rfl | rfl | rfl | rfl <;> cases same
  obtain ⟨-, ⟨_, read⟩, -, -⟩ := Mesh.load_reads loaded
  rw [Defaults.read_plain plain] at read
  obtain ⟨defaults, -⟩ := Prod.mk.inj (Except.ok.inj read)
  rw [← defaults]
  cases axis <;> decide

theorem staggered_lies {m : Mesh ℝ} (shape : m.shape = staggeredShape) (aligned aligned' : Bool) :
    m.Lies .x (unitField .xlow aligned) (unitField .centre aligned') .toCentre := ⟨by rw [shape]; rfl, rfl, rfl⟩

theorem fluxes_agree_with_derivatives_ones : ∃ m, Mesh.load GridSource.empty staggeredOptions ⟨0, 1⟩ = .ok (m, []) ∧
    (∃ d, m.flow .x .flux (unitField .xlow false) (unitField .centre false) .inherit .u1 = .ok d ∧
      m.flow .x .flux (unitField .xlow false) (unitField .centre false) .inherit .split = .ok d) ∧
    (RankM.fluxDivergence ⟨unitField .centre false, unitField .centre false, unitField .centre false, true⟩
        (unitField .centre false) ⟨.c2, .inherit, false⟩).run.run (.ofMesh m []) =
      (RankM.divergence ⟨unitField .centre false, unitField .centre false, unitField .centre false, true⟩
        .inherit).run.run (.ofMesh m []) := by
  obtain ⟨m, loaded, -, shape, extents⟩ := load_staggered
  have shaped (loc : Location) (aligned : Bool) : (unitField loc aligned).extents = m.extents := extents.symm
  have chosen := staggered_defaults loaded
  have plain : transformName m.options ≠ "shifted" := by
    have unset : staggeredOptions.isSet "paralleltransform" = false := by decide +kernel
    rw [Mesh.load_options loaded, transformName_unset unset]
    decide
  have agree := fluxes_agree_with_derivatives GridSource.empty (by decide : 0 < 1) loaded
  refine ⟨m, loaded, ?_, ?_⟩
  · have flux := agree.1 .x .toCentre (unitField .xlow false) (unitField .centre false) .inherit (unitField_fits _ _)
      (shaped _ _) (unitField_fits _ _) (shaped _ _) (staggered_lies shape _ _) rfl
    exact flux.split_flux rfl (by decide) (chosen .x).1 (chosen .x).2.1
  · refine agree.2 (fun axis => (chosen axis).2.2) _ _ _ _ (unitField_fits _ _) (shaped _ _) rfl (unitField_ones _ _)
      (fun a => ?_) ⟨.x, rfl⟩ rfl _ ⟨rfl, .inr ⟨rfl, plain⟩⟩
    cases a <;> exact ⟨shaped _ _, rfl⟩

/-- Where the velocity is not in the frame of the field, a split flux is a misuse though the other fluxes and the slope of the
velocity can be had. -/
theorem split_flux_needs_one_frame : ∃ m, Mesh.load GridSource.empty staggeredOptions ⟨0, 1⟩ = .ok (m, []) ∧
    (m.defaults.method .x ⟨.upwind, true⟩ = .u1 ∧ m.defaults.method .x ⟨.first, true⟩ = .c2) ∧
    ((unitField .xlow true).extents = m.extents ∧ (unitField .centre false).extents = m.extents ∧
      (unitField .centre false).Ones) ∧
    (∃ d, m.flow .x .flux (unitField .xlow true) (unitField .centre false) .inherit .u1 = .ok d) ∧
    (∃ d, m.derivative .x .first (unitField .xlow true) (.real .centre) .standard false = .ok d) ∧
    m.flow .x .flux (unitField .xlow true) (unitField .centre false) .inherit .split =
      .error (.raised (.alignmentsDiffer "Mul")) := by
  obtain ⟨m, loaded, -, shape, extents⟩ := load_staggered
  have shaped (loc : Location) (aligned : Bool) : (unitField loc aligned).extents = m.extents := extents.symm
  obtain ⟨l, count, given⟩ := Layout.of_load loaded
  have bears (loc : Location) (aligned : Bool) : m.Bears (unitField loc aligned) :=
    Layout.bears (given 0 (by decide) m [] loaded) (unitField_fits loc aligned) (shaped loc aligned)
  obtain ⟨upwinded, differenced, -⟩ := staggered_defaults loaded .x
  have near := Mesh.guards_near loaded .x
  have lies := staggered_lies shape true false
  have own : Placement.inherit.orElse (unitField .centre false).loc = .real .centre := rfl
  obtain ⟨flux, upwind, first, ⟨-, made⟩, ⟨-, found⟩, -, found'⟩ := Mesh.kernels_off near upwinded differenced
  have several : m.axisSize .x ≠ 1 := by
    rw [(bears .centre false).axisSize_eq]
    decide
  refine ⟨m, loaded, ⟨upwinded, differenced⟩, ⟨shaped _ _, shaped _ _, unitField_ones _ _⟩, ?_, ?_, ?_⟩
  · exact Mesh.flux_taken (bears _ _) rfl (unitField_fits _ _) lies own (by decide) near
  · obtain ⟨d, sloped, -⟩ := Mesh.slope_values (v := unitField .xlow true) (o := .toCentre) (bears .centre false) rfl
      (unitField_fits _ _) lies own found'
    exact ⟨d, sloped⟩
  · exact Mesh.split_misaligned (bears _ _) rfl (unitField_fits _ _) lies own near found (by decide) several found'

end HaloMesh
