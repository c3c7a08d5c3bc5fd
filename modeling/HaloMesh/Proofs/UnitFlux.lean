import HaloMesh.Proofs.DefaultDerivatives
import HaloMesh.Proofs.FluxConservation
import HaloMesh.Proofs.FormalOrder

/-! Fluxes of a field that is one everywhere. What such a field is carried by is all that is left of its flux, so that the
flux is a derivative of the velocity, and upwinding finds nothing to carry. -/

namespace HaloMesh

/-- The first derivative of the velocity that a flux method comes to for a field of ones: the central one of fourth order
for the flux of this order, and of second order for the others. -/
def Method.central (method : Method) : Method := if method = .c4 then .c4 else .c2

namespace Kernel

variable {o : Offset} {method : Method} {k first : Kernel ℝ} {staggered : Bool} {line : Int → ℝ} {i : Int}

theorem carry_congr {line' : Int → ℝ} (same : ∀ j, i - k.width ≤ j → j ≤ i + k.width → line j = line' j) (v : Int → ℝ) :
    k.carry o v line i = k.carry o v line' i := by
  simp only [carry, Window.on_congr same]

/-- The flux of ones is a difference of the velocity. -/
theorem carry_ones (made : of? ⟨.flux, o.staggered⟩ method = some k)
    (made' : of? ⟨.first, o.staggered⟩ method.central = some first) (known : method ∈ o.fluxMethods) (v : Int → ℝ)
    (n : Nat) : k.carry o v (fun _ => 1) i = first.slope .first o n v i := by
  rw [Exact.carry_faces made known]
  cases o <;> simp only [Offset.fluxMethods, List.mem_cons, List.not_mem_nil, or_false] at known
  · rcases known with rfl | rfl | rfl <;> cases made'
    · change _ = firstC2 (Window.on v i .centred (1 : Nat))
      rw [Exact.window_near]
      simp only [Exact.face, carried, ite_self, firstC2, Exact.half_eq, Int.add_sub_cancel]
      ring
    · change _ = firstC2 (Window.on v i .centred (1 : Nat))
      rw [Exact.window_near]
      simp only [Exact.face, firstC2, Exact.half_eq, Int.add_sub_cancel]
      ring
    · change _ = firstC4 (Window.on v i .centred (2 : Nat))
      rw [Exact.window_far]
      simp only [Exact.face, firstC4, Exact.ofNat_eq, Int.add_sub_cancel, Int.sub_sub, Int.reduceAdd, Int.add_sub_assoc,
        Int.reduceSub, ← Int.sub_eq_add_neg]
      push_cast
      ring
  · obtain rfl := known
    cases made'
    change _ = v i - v (i - 1)
    simp only [Exact.face, carried, ite_self, Int.add_sub_cancel]
    ring
  · obtain rfl := known
    cases made'
    change _ = v (i + 1) - v i
    simp only [Exact.face, carried, ite_self]
    ring

/-- Upwinding carries nothing where the field does not change. -/
theorem upwind_ones (made : of? ⟨.upwind, staggered⟩ method = some k) (v : Int → ℝ) :
    k.carry o v (fun _ => 1) i = 0 := by
  have near : Window.on (fun _ => (1 : ℝ)) i .centred (1 : Nat) = ⟨Scalar.ofInt 0, 1, 1, 1, Scalar.ofInt 0⟩ := rfl
  have far : Window.on (fun _ => (1 : ℝ)) i .centred (2 : Nat) = ⟨1, 1, 1, 1, 1⟩ := rfl
  cases staggered
  · cases method <;> simp [of?] at made <;> subst made <;> simp only [carry, near, far]
    case u1 => simp only [upwindU1, sub_self, mul_zero, ite_self]
    case c2 => simp only [upwindC2, sub_self, mul_zero]
    case u2 =>
      simp only [upwindU2, Exact.ofNat_eq, scientific_eq]
      norm_num
    case u3 =>
      simp only [upwindU3, Exact.ofNat_eq]
      norm_num
    case w3 =>
      simp only [upwindW3, Exact.ofNat_eq, sub_self]
      split <;> norm_num
    case c4 => simp [upwindC4]
  · cases method <;> simp [of?] at made <;> subst made <;> simp only [carry, near]
    case u1 =>
      simp only [staggeredUpwindU1, carried, ite_self, Exact.ofNat_eq]
      push_cast
      ring
    case c2 => simp only [staggeredUpwindC2, sub_self, mul_zero]

/-- Off the field, what is upwinded and the field times the slope of the velocity make up its flux. -/
theorem carry_split {upwind : Kernel ℝ} (off : o ≠ .centred) (made : of? ⟨.flux, true⟩ .u1 = some k)
    (made' : of? ⟨.upwind, true⟩ .u1 = some upwind) (made'' : of? ⟨.first, true⟩ .c2 = some first) (v : Int → ℝ) (n : Nat) :
    upwind.carry o v line i + line i * first.slope .first o n v i = k.carry o v line i := by
  cases made
  cases made'
  cases made''
  cases o with
  | centred => exact absurd rfl off
  | toLow | toCentre =>
    change staggeredUpwindU1 _ (Window.on line i .centred (1 : Nat)) + line i * staggeredFirstC2 _ = staggeredFluxU1 _ _
    rw [Exact.window_near]
    simp only [staggeredUpwindU1, staggeredFluxU1, staggeredFirstC2, Exact.ofNat_eq]
    push_cast
    ring

end Kernel

/-- A field that is one everywhere. -/
def Field.Ones (f : Field ℝ) : Prop := ∀ x y z, f.HasPoint x y z → f.value x y z = 1

namespace Field

variable {f v d e : Field ℝ}

theorem Ones.along (ones : f.Ones) {axis : Axis} {x y z j : Int} (has : f.HasPoint x y z) (within : f.Reads axis j) :
    f.along axis x y z j = 1 := by
  have there := (position_along has within).1
  cases axis <;> exact ones _ _ _ there

/-- A result like one field that has the values of a result like another is this one in the frame of the first. -/
theorem eq_setAligned (fits : f.Fits) (shaped : v.extents = f.extents) (alike : Alike f d) (alike' : Alike (v.retag f.loc) e)
    (same : ∀ x y z, f.HasPoint x y z → d.value x y z = e.value x y z) : d = e.setAligned f.aligned := by
  have extents : e.extents = f.extents := alike'.extents.trans shaped
  have turned : Alike f (e.setAligned f.aligned) := by
    obtain ⟨nx, ny, nz⟩ := sizes_congr extents
    exact ⟨nx, ny, nz, size_congr extents, alike'.loc, rfl⟩
  exact eq_of_values (turned.fits fits) (turned.symm.trans alike) fun x y z has => same x y z (turned.hasPoint.mp has)

end Field

namespace Mesh

variable {m : Mesh ℝ} {axis : Axis} {kind : Kind} {family : Family} {method : Method} {o : Offset} {v f : Field ℝ}
  {place : Placement} {k : Kernel ℝ} {e : Failure}

theorem kernel_reach (resolved : m.defaults.resolve axis family method = .ok k) :
    ((axis = .z ∨ (k.width : Int) ≤ m.guards axis) → m.kernel axis family method = .ok k) ∧
      (¬ (axis = .z ∨ (k.width : Int) ≤ m.guards axis) → ∃ e, m.kernel axis family method = .error e) := by
  rw [kernel, resolved]
  refine ⟨fun reach => if_neg ?_, fun wide => ⟨_, if_pos ?_⟩⟩
  · rintro ⟨across, beyond⟩
    have := reach.resolve_left across
    omega
  · obtain ⟨across, beyond⟩ := not_or.mp wide
    exact ⟨across, by omega⟩

theorem derivative_refused {p : DerivativePlan} {inc : Bool} (planned : m.plan axis f.loc place = .ok p)
    (several : m.axisSize axis ≠ 1) (refused : m.kernel axis ⟨kind, p.staggered⟩ method = .error e) :
    m.derivative axis kind f place method inc = .error e := by
  rw [derivative_bind planned several, refused]
  rfl

section Planned

variable (shaped : v.extents = f.extents) {plan : Bool × Offset} (planned : m.flowPlan axis v f place = .ok plan)
include shaped planned

theorem flow_single (single : m.axisSize axis = 1) : m.flow axis kind v f place method = .ok f.zeroLike := by
  rw [flow_bind shaped, planned]
  exact if_pos single

theorem flow_refused (several : m.axisSize axis ≠ 1) (refused : m.kernel axis ⟨kind, plan.1⟩ method = .error e) :
    m.flow axis kind v f place method = .error e := by
  rw [flow_bind shaped, planned]
  change (if m.axisSize axis = 1 then _ else _) = Except.error e
  rw [if_neg several, refused]
  rfl

/-- A split flux goes on from what is carried with the slope of the velocity. -/
theorem flow_split_bind (several : m.axisSize axis ≠ 1) (made : m.kernel axis ⟨kind, plan.1⟩ method = .ok k)
    (split : k.isSplit = true) {upwind : Kernel ℝ} (found : m.kernel axis ⟨.upwind, plan.1⟩ .standard = .ok upwind)
    {advected : Field ℝ} (carried : m.applyFlow axis upwind plan.2 v f = .ok advected) :
    m.flow axis kind v f place method =
      (m.derivative axis .first v (.real f.loc) .standard false >>= fun dv => f.mul dv >>= advected.add) := by
  rw [flow_bind shaped, planned]
  change (if m.axisSize axis = 1 then _ else _) = _
  rw [if_neg several, made]
  change (if k.isSplit = true then _ else _) = _
  rw [if_pos split, found]
  change (m.applyFlow axis upwind plan.2 v f >>= _) = _
  rw [carried]
  rfl

end Planned

/-- The flux by one method is the slope of the velocity by another, in the frame of the field, or both are refused. -/
def FluxIsSlope (m : Mesh ℝ) (axis : Axis) (v f : Field ℝ) (place : Placement) (method slope : Method) : Prop :=
  (m.flow axis .flux v f place method).toOption =
    (m.derivative axis .first v (.real f.loc) slope false).toOption.map fun d => d.setAligned f.aligned

/-- The kernels of a flux and of the slope that it comes to reach equally far. -/
theorem exists_kernels (known : method ∈ o.fluxMethods) : ∃ flux first : Kernel ℝ,
    (Kernel.of? ⟨.flux, o.staggered⟩ method = some flux ∧ Kernel.of? ⟨.first, o.staggered⟩ method.central = some first) ∧
      (flux.width = method.fluxReach ∧ first.width = method.fluxReach ∧ flux.isSplit = false) ∧
      ∀ (d : Defaults) (axis : Axis), d.resolve axis ⟨.flux, o.staggered⟩ method = .ok flux ∧
        d.resolve axis ⟨.first, o.staggered⟩ method.central = .ok first := by
  cases o <;> simp only [Offset.fluxMethods, List.mem_cons, List.not_mem_nil, or_false] at known
  · rcases known with rfl | rfl | rfl <;>
      exact ⟨_, _, ⟨rfl, rfl⟩, ⟨rfl, rfl, rfl⟩, fun _ axis => by cases axis <;> exact ⟨rfl, rfl⟩⟩
  · obtain rfl := known
    exact ⟨_, _, ⟨rfl, rfl⟩, ⟨rfl, rfl, rfl⟩, fun _ axis => by cases axis <;> exact ⟨rfl, rfl⟩⟩
  · obtain rfl := known
    exact ⟨_, _, ⟨rfl, rfl⟩, ⟨rfl, rfl, rfl⟩, fun _ axis => by cases axis <;> exact ⟨rfl, rfl⟩⟩

section Flux

variable (bears : m.Bears f) (shaped : v.extents = f.extents) (fits : v.Fits) (lies : m.Lies axis v f o)
  (own : place.orElse f.loc = .real f.loc)
include bears shaped fits lies own

/-- Along an axis with a single point both are zero. -/
theorem fluxIsSlope_single (single : m.axisSize axis = 1) (method slope : Method) :
    m.FluxIsSlope axis v f place method slope := by
  have planned := flowPlan_lies lies own
  obtain ⟨p, direct, -, -, -, output⟩ := flowPlan_ok planned
  have zero : f.zeroLike = (v.zeroLike.retag f.loc).setAligned f.aligned := by
    refine Field.eq_setAligned bears.fits shaped f.alike_zeroLike (v.alike_zeroLike.retag f.loc) fun x y z has => ?_
    rw [Field.value_zeroLike bears.fits has, Field.value_retag,
      Field.value_zeroLike fits ((Field.hasPoint_congr shaped).mpr has)]
  rw [FluxIsSlope, flow_single shaped planned single, derivative_single direct single, output]
  exact congrArg some zero

/-- The slope of the velocity at the place of the field. -/
theorem slope_values {first : Kernel ℝ} {slope : Method} (made : m.kernel axis ⟨.first, o.staggered⟩ slope = .ok first) :
    ∃ d, m.derivative axis .first v (.real f.loc) slope false = .ok d ∧ Field.Alike (v.retag f.loc) d ∧
      ∀ x y z, f.HasPoint x y z → d.value x y z = if m.axisSize axis ≠ 1 ∧ m.Evaluates axis false x y
        then first.slope .first o v.nz (v.along axis x y z) (axis.coordinate x y z) else 0 := by
  obtain ⟨p, direct, same, input, result, output⟩ := flowPlan_ok (flowPlan_lies lies own)
  obtain ⟨staggered, offset⟩ := Prod.mk.inj same
  have bearsV : m.Bears v := { bears with fits, shaped := shaped.trans bears.shaped }
  obtain ⟨d, computed, alike, values⟩ := derivative_values bearsV direct input result (staggered.symm ▸ made) rfl
  rw [output] at alike
  rw [offset, Exact.zero_eq] at values
  exact ⟨d, computed, alike, fun x y z has => values x y z ((Field.hasPoint_congr shaped).mpr has)⟩

omit bears shaped fits in
theorem slope_refused {slope : Method} (several : m.axisSize axis ≠ 1)
    (refused : m.kernel axis ⟨.first, o.staggered⟩ slope = .error e) :
    m.derivative axis .first v (.real f.loc) slope false = .error e := by
  obtain ⟨p, direct, same, -⟩ := flowPlan_ok (flowPlan_lies lies own)
  obtain ⟨staggered, -⟩ := Prod.mk.inj same
  exact derivative_refused direct several (staggered.symm ▸ refused)

/-- Kernels that fit into the guard cells give a field of the values of the slope. -/
theorem exists_slope {first : Kernel ℝ} {slope : Method} (known : method ∈ o.fluxMethods) (ones : f.Ones)
    (made : m.kernel axis ⟨.flux, o.staggered⟩ method = .ok k) (own₁ : Kernel.of? ⟨.flux, o.staggered⟩ method = some k)
    (made' : m.kernel axis ⟨.first, o.staggered⟩ slope = .ok first)
    (own₂ : Kernel.of? ⟨.first, o.staggered⟩ method.central = some first) (whole : k.isSplit = false) :
    ∃ d, m.flow axis .flux v f place method = .ok (d.setAligned f.aligned) ∧
      m.derivative axis .first v (.real f.loc) slope false = .ok d ∧ Field.Alike (v.retag f.loc) d := by
  obtain ⟨d, computed, alike, values⟩ := flow_values bears shaped fits (flowPlan_lies lies own) made rfl whole
  obtain ⟨e, sloped, alike', slopes⟩ := slope_values bears shaped fits lies own made'
  have equal : d = e.setAligned f.aligned := by
    refine Field.eq_setAligned bears.fits shaped alike alike' fun x y z has => ?_
    rw [values x y z has, slopes x y z has]
    split
    next evaluated =>
      rw [Kernel.carry_congr fun j low high => ones.along has (bears.reads (kernel_ok made).2.2 evaluated.2 low high),
        Kernel.carry_ones own₁ own₂ known]
    next => exact Exact.zero_eq
  exact ⟨e, equal ▸ computed, sloped, alike'⟩

theorem fluxIsSlope_ones (known : method ∈ o.fluxMethods) (ones : f.Ones) :
    m.FluxIsSlope axis v f place method method.central := by
  by_cases single : m.axisSize axis = 1
  · exact fluxIsSlope_single bears shaped fits lies own single _ _
  obtain ⟨flux, first, ⟨made, made'⟩, ⟨width, width', whole⟩, resolved⟩ := exists_kernels known
  have reach := kernel_reach (resolved m.defaults axis).1
  have reach' := kernel_reach (resolved m.defaults axis).2
  rw [width] at reach
  rw [width'] at reach'
  by_cases near : axis = .z ∨ (method.fluxReach : Int) ≤ m.guards axis
  · obtain ⟨d, computed, sloped, -⟩ :=
      exists_slope bears shaped fits lies own known ones (reach.1 near) made (reach'.1 near) made' whole
    rw [FluxIsSlope, computed, sloped]
    rfl
  · obtain ⟨e, refused⟩ := reach.2 near
    obtain ⟨e', refused'⟩ := reach'.2 near
    rw [FluxIsSlope, flow_refused shaped (flowPlan_lies lies own) single refused, slope_refused lies own single refused']
    rfl

theorem flux_taken (known : method ∈ o.fluxMethods) (near : axis = .z ∨ (method.fluxReach : Int) ≤ m.guards axis) :
    ∃ d, m.flow axis .flux v f place method = .ok d := by
  obtain ⟨k, made, -, whole⟩ := kernel_flux known near
  obtain ⟨d, computed, -⟩ := flow_values bears shaped fits (flowPlan_lies lies own) made rfl whole
  exact ⟨d, computed⟩

/-- Where the first derivative is the central one by default, the flux of ones in the frame of the velocity is taken like it. -/
theorem flux_eq_slope (centred : o = .centred) (aligned : v.aligned = f.aligned) (near : axis = .z ∨ 1 ≤ m.guards axis)
    (chosen : m.defaults.method axis ⟨.first, false⟩ = .c2) (ones : f.Ones) : ∃ d,
      m.flow axis .flux v f place .c2 = .ok d ∧ m.derivative axis .first v (.real f.loc) .standard false = .ok d ∧
        d.loc = f.loc := by
  subst centred
  have reach : axis = .z ∨ (Method.fluxReach .c2 : Int) ≤ m.guards axis := near
  obtain ⟨flux, first, ⟨made, made'⟩, ⟨width, width', whole⟩, resolved⟩ :=
    exists_kernels (show Method.c2 ∈ Offset.fluxMethods .centred by decide)
  have default : m.defaults.resolve axis ⟨.first, false⟩ .standard = .ok first := by
    rw [Defaults.resolve, if_pos rfl, chosen]
    exact (resolved m.defaults axis).2
  obtain ⟨d, computed, sloped, alike⟩ := exists_slope bears shaped fits lies own (by decide) ones
    ((kernel_reach (resolved m.defaults axis).1).1 (width ▸ reach)) made ((kernel_reach default).1 (width' ▸ reach)) made'
    whole
  have frame : d.aligned = f.aligned := alike.aligned.trans aligned
  exact ⟨d, (frame ▸ computed : _ = Except.ok (d.setAligned d.aligned)), sloped, alike.loc⟩

variable (aligned : v.aligned = f.aligned) (near : axis = .z ∨ 1 ≤ m.guards axis) {upwind : Kernel ℝ}
  (found : m.kernel axis ⟨.upwind, o.staggered⟩ .standard = .ok upwind)
include aligned near found

omit bears shaped fits lies own aligned found in
theorem kernel_split (staggered : Bool) : ∃ k, m.kernel axis ⟨.flux, staggered⟩ .split = .ok k ∧ k.isSplit = true := by
  have resolved (d : Defaults) : d.resolve axis ⟨.flux, staggered⟩ .split =
      .ok (⟨.split, ⟨.flux, staggered⟩, 1, false, .none⟩ : Kernel ℝ) := by
    cases staggered <;> cases axis <;> rfl
  exact ⟨_, (kernel_reach (resolved m.defaults)).1 (by simpa using near), rfl⟩

/-- A split flux of ones is the slope of the velocity, by whatever method it is upwinded. -/
theorem fluxIsSlope_split (ones : f.Ones) : m.FluxIsSlope axis v f place .split .standard := by
  by_cases single : m.axisSize axis = 1
  · exact fluxIsSlope_single bears shaped fits lies own single _ _
  have planned := flowPlan_lies lies own
  obtain ⟨k, made, split⟩ := kernel_split near o.staggered
  obtain ⟨own', -, reach⟩ := kernel_ok found
  cases found' : m.kernel axis ⟨.first, o.staggered⟩ .standard with
  | ok first =>
    obtain ⟨d, computed, alike, values⟩ := flow_split_values bears shaped fits planned made split aligned found found'
    obtain ⟨e, sloped, alike', slopes⟩ := slope_values bears shaped fits lies own found'
    rw [FluxIsSlope, computed, sloped]
    refine congrArg some (Field.eq_setAligned bears.fits shaped alike alike' fun x y z has => ?_)
    rw [values x y z has, slopes x y z has, if_neg single, ones x y z has]
    by_cases evaluated : m.Evaluates axis false x y
    · rw [if_pos evaluated, if_pos evaluated, if_pos ⟨single, evaluated⟩,
        Kernel.carry_congr fun j low high => ones.along has (bears.reads reach evaluated low high),
        Kernel.upwind_ones own', zero_add, one_mul]
    · rw [if_neg evaluated, if_neg evaluated, if_neg fun both => evaluated both.2, Exact.zero_eq]
      ring
  | error e =>
    obtain ⟨advected, carried, -⟩ := applyFlow_values bears shaped fits found rfl (Kernel.of?_upwind own') o
    rw [FluxIsSlope, flow_split_bind shaped planned single made split found carried,
      slope_refused lies own single found']
    rfl

theorem split_taken {first : Kernel ℝ} (found' : m.kernel axis ⟨.first, o.staggered⟩ .standard = .ok first) :
    ∃ d, m.flow axis .flux v f place .split = .ok d := by
  obtain ⟨k, made, split⟩ := kernel_split near o.staggered
  obtain ⟨d, computed, -⟩ :=
    flow_split_values bears shaped fits (flowPlan_lies lies own) made split aligned found found'
  exact ⟨d, computed⟩

omit aligned in
/-- A split flux multiplies the field by the slope of the velocity, and so needs both in one frame. -/
theorem split_misaligned (other : v.aligned ≠ f.aligned) (several : m.axisSize axis ≠ 1) {first : Kernel ℝ}
    (found' : m.kernel axis ⟨.first, o.staggered⟩ .standard = .ok first) :
    m.flow axis .flux v f place .split = Outcome.raise (.alignmentsDiffer "Mul") := by
  obtain ⟨k, made, split⟩ := kernel_split near o.staggered
  obtain ⟨advected, carried, -⟩ := applyFlow_values bears shaped fits found rfl (Kernel.of?_upwind (kernel_ok found).1) o
  obtain ⟨dv, sloped, alike, -⟩ := slope_values bears shaped fits lies own found'
  have shape : f.sameShape dv = true := decide_eq_true (alike.extents.trans shaped).symm
  have place : f.loc = dv.loc := alike.loc.symm
  have frame : f.aligned ≠ dv.aligned := fun same => other (alike.aligned.symm.trans same.symm)
  have refused : f.mul dv = Outcome.raise (.alignmentsDiffer "Mul") := by
    rw [Field.mul, Field.combine, Field.checkCompatible, if_neg (by simp [shape]), if_neg (not_not.mpr place), if_pos frame]
    rfl
  rw [flow_split_bind shaped (flowPlan_lies lies own) several made split found carried, sloped]
  change (f.mul dv >>= _) = _
  rw [refused]
  rfl

omit bears shaped fits lies own aligned found in
/-- The default kernels off the field where they are those of the first order, beside the one for the flux. -/
theorem kernels_off (chosen : m.defaults.method axis ⟨.upwind, true⟩ = .u1)
    (chosen' : m.defaults.method axis ⟨.first, true⟩ = .c2) : ∃ flux upwind first : Kernel ℝ,
      (Kernel.of? ⟨.flux, true⟩ .u1 = some flux ∧ m.kernel axis ⟨.flux, true⟩ .u1 = .ok flux) ∧
      (Kernel.of? ⟨.upwind, true⟩ .u1 = some upwind ∧ m.kernel axis ⟨.upwind, true⟩ .standard = .ok upwind) ∧
      Kernel.of? ⟨.first, true⟩ .c2 = some first ∧ m.kernel axis ⟨.first, true⟩ .standard = .ok first := by
  have taken {family : Family} {method : Method} {k : Kernel ℝ} (width : k.width = 1)
      (resolved : m.defaults.resolve axis family method = .ok k) : m.kernel axis family method = .ok k :=
    (kernel_reach resolved).1 (by rw [width]; exact near)
  have flux : m.kernel axis ⟨.flux, true⟩ .u1 = .ok ⟨.u1, ⟨.flux, true⟩, 1, false, .flow Kernel.staggeredFluxU1⟩ := by
    refine taken rfl ?_
    cases axis <;> rfl
  have upwind : m.kernel axis ⟨.upwind, true⟩ .standard =
      .ok ⟨.u1, ⟨.upwind, true⟩, 1, false, .flow Kernel.staggeredUpwindU1⟩ := by
    refine taken rfl ?_
    rw [Defaults.resolve, if_pos rfl, chosen]
    cases axis <;> rfl
  have first : m.kernel axis ⟨.first, true⟩ .standard =
      .ok ⟨.c2, ⟨.first, true⟩, 1, true, .derivative Kernel.staggeredFirstC2⟩ := by
    refine taken rfl ?_
    rw [Defaults.resolve, if_pos rfl, chosen']
    cases axis <;> rfl
  exact ⟨_, _, _, ⟨rfl, flux⟩, ⟨rfl, upwind⟩, rfl, first⟩

omit found in
/-- Off the field the parts of a split flux add up to the flux. -/
theorem split_eq_flux (off : o ≠ .centred) (chosen : m.defaults.method axis ⟨.upwind, true⟩ = .u1)
    (chosen' : m.defaults.method axis ⟨.first, true⟩ = .c2) :
    ∃ d, m.flow axis .flux v f place .u1 = .ok d ∧ m.flow axis .flux v f place .split = .ok d := by
  have planned := flowPlan_lies lies own
  rw [show o.staggered = true by cases o <;> first | rfl | exact absurd rfl off] at planned
  obtain ⟨flux, upwind, first, ⟨own₁, made⟩, ⟨own₂, found⟩, own₃, found'⟩ := kernels_off near chosen chosen'
  obtain ⟨k, both, split⟩ := kernel_split near true
  have whole : flux.isSplit = false := by
    cases own₁
    rfl
  obtain ⟨d, computed, alike, values⟩ := flow_values bears shaped fits planned made rfl whole
  obtain ⟨e, computed', alike', values'⟩ := flow_split_values bears shaped fits planned both split aligned found found'
  have same : e = d := by
    refine Field.eq_of_values (alike.fits bears.fits) (alike.symm.trans alike') fun x y z has => ?_
    have has' := alike.hasPoint.mp has
    rw [values x y z has', values' x y z has']
    by_cases single : m.axisSize axis = 1
    · rw [if_pos single, if_neg fun several => several.1 single]
    by_cases evaluated : m.Evaluates axis false x y
    · rw [if_neg single, if_pos evaluated, if_pos evaluated, if_pos ⟨single, evaluated⟩, ← Field.along_self axis has',
        Kernel.carry_split off own₁ own₂ own₃]
    · rw [if_neg single, if_neg evaluated, if_neg evaluated, if_neg fun both => evaluated both.2, Exact.zero_eq]
      ring
  exact ⟨d, computed, same ▸ computed'⟩

end Flux

/-- How the flux of a velocity agrees with derivatives of the velocity, for a field that may lie off it along an axis. Where
the field is one, every method comes to the slope of the velocity. The split method also asks for the frame of the velocity,
and comes off the field to the flux of first order. -/
structure FluxAgrees (m : Mesh ℝ) (axis : Axis) (o : Offset) (v f : Field ℝ) (place : Placement) : Prop where
  ones : f.Ones → ∀ method ∈ o.fluxMethods, m.FluxIsSlope axis v f place method method.central
  taken : ∀ method ∈ o.fluxMethods, method ≠ .c4 ∨ axis = .z ∨ 2 ≤ m.guards axis →
    ∃ d, m.flow axis .flux v f place method = .ok d
  split_ones : v.aligned = f.aligned → f.Ones → m.FluxIsSlope axis v f place .split .standard
  split_taken : v.aligned = f.aligned → (o = .centred ∨ ∃ k, m.kernel axis ⟨.first, o.staggered⟩ .standard = .ok k) →
    ∃ d, m.flow axis .flux v f place .split = .ok d
  split_flux : v.aligned = f.aligned → o ≠ .centred → m.defaults.method axis ⟨.upwind, true⟩ = .u1 →
    m.defaults.method axis ⟨.first, true⟩ = .c2 →
    ∃ d, m.flow axis .flux v f place .u1 = .ok d ∧ m.flow axis .flux v f place .split = .ok d

theorem guards_near {source : GridSource ℝ} {options : Options ℝ} {endpoint : Transport.Endpoint} {messages : List String}
    (loaded : Mesh.load source options endpoint = .ok (m, messages)) (axis : Axis) : axis = .z ∨ 1 ≤ m.guards axis := by
  obtain ⟨x, y⟩ := load_guards loaded
  cases axis with
  | x => exact .inr x
  | y => exact .inr y
  | z => exact .inl rfl

theorem default_upwind {source : GridSource ℝ} {options : Options ℝ} {endpoint : Transport.Endpoint}
    {messages : List String} (loaded : Mesh.load source options endpoint = .ok (m, messages)) (axis : Axis)
    (staggered : Bool) : ∃ k, m.kernel axis ⟨.upwind, staggered⟩ .standard = .ok k := by
  cases staggered with
  | false => exact default_kernel loaded axis (by simp)
  | true =>
    obtain ⟨-, ⟨_, read⟩, -, -⟩ := load_reads loaded
    obtain ⟨k, resolved⟩ := Defaults.exists_default (α := ℝ) read axis (show Family.isTable ⟨.upwind, true⟩ = true by rfl)
    have own : Kernel.of? ⟨.upwind, true⟩ k.method = some k := (Kernel.lookup_ok resolved).1
    have width : k.width = 1 := by
      cases chosen : k.method <;> rw [chosen] at own <;> cases own <;> rfl
    exact ⟨k, (kernel_reach resolved).1 (by rw [width]; exact guards_near loaded axis)⟩

theorem flux_agrees {source : GridSource ℝ} {options : Options ℝ} {i count : Nat} {messages : List String}
    (inside : i < count) (loaded : Mesh.load source options ⟨i, count⟩ = .ok (m, messages)) (fits : f.Fits)
    (shaped : f.extents = m.extents) (fitsV : v.Fits) (shapedV : v.extents = m.extents) (lies : m.Lies axis v f o)
    (own : place.orElse f.loc = .real f.loc) : m.FluxAgrees axis o v f place := by
  obtain ⟨l, rfl, given⟩ := Layout.of_load loaded
  have bears := Layout.bears (given i inside m messages loaded) fits shaped
  have alike := shapedV.trans shaped.symm
  have near := guards_near loaded axis
  obtain ⟨upwind, found⟩ := default_upwind loaded axis o.staggered
  exact {
    ones := fun ones method known => fluxIsSlope_ones bears alike fitsV lies own known ones
    taken := fun method known wide => flux_taken bears alike fitsV lies own known <| by
      rw [Method.fluxReach]
      split <;> simp_all
    split_ones := fun aligned ones => fluxIsSlope_split bears alike fitsV lies own aligned near found ones
    split_taken := fun aligned known => by
      obtain ⟨first, found'⟩ : ∃ k, m.kernel axis ⟨.first, o.staggered⟩ .standard = .ok k := by
        rcases known with rfl | kernel
        · exact default_kernel loaded axis (show Kind.first ∈ _ by simp)
        · exact kernel
      exact split_taken bears alike fitsV lies own aligned near found found'
    split_flux := fun aligned off chosen chosen' => split_eq_flux bears alike fitsV lies own aligned near off chosen chosen' }

end Mesh

end HaloMesh
