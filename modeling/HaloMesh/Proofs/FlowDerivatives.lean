import HaloMesh.Proofs.LineDerivatives

/-! Flow derivatives point by point. Besides the line of the field itself they are worked out from the line of the
velocity through the same point. -/

namespace HaloMesh

variable {α : Type}

namespace Field

variable {f v : Field α}

theorem sizes_congr (same : v.extents = f.extents) : v.nx = f.nx ∧ v.ny = f.ny ∧ v.nz = f.nz := by
  simpa [Field.extents] using same

theorem reader_congr (same : v.extents = f.extents) (axis : Axis) : v.reader axis = f.reader axis := by
  obtain ⟨nx, ny, nz⟩ := sizes_congr same
  cases axis <;> simp [Field.reader, Field.stride, Field.axisSize, ny, nz]

theorem lineBase_congr (same : v.extents = f.extents) (axis : Axis) (x y z : Int) :
    v.lineBase axis x y z = f.lineBase axis x y z := by
  obtain ⟨nx, ny, nz⟩ := sizes_congr same
  cases axis <;> simp only [Field.lineBase, ny, nz]

theorem hasPoint_congr (same : v.extents = f.extents) {x y z : Int} : v.HasPoint x y z ↔ f.HasPoint x y z := by
  obtain ⟨nx, ny, nz⟩ := sizes_congr same
  simp only [HasPoint, HasColumn, nx, ny, nz]

theorem reads_congr (same : v.extents = f.extents) {axis : Axis} {j : Int} : v.Reads axis j ↔ f.Reads axis j := by
  obtain ⟨nx, ny, nz⟩ := sizes_congr same
  cases axis <;> simp only [Reads, Field.axisSize, nx, ny, nz]

end Field

variable [Scalar α]

namespace Kernel

variable {k : Kernel α} {family : Family} {method : Method}

/-- Kernels of a flow are put together from others, or have a formula for the velocity at a point or around it. -/
theorem of?_flow (made : of? family method = some k) (flow : family.kind.isFlow = true) :
    k.isSplit = true ∨ (∃ formula, k.formula = .upwind formula) ∨ ∃ formula, k.formula = .flow formula := by
  obtain ⟨kind, staggered⟩ := family
  cases kind <;> cases staggered <;> cases method <;> simp [of?, Kind.isFlow] at made flow <;> subst made <;>
    simp [isSplit]

/-- No kernel of an upwind derivative is put together from others. -/
theorem of?_upwind {staggered : Bool} (made : of? ⟨.upwind, staggered⟩ method = some k) : k.isSplit = false := by
  cases staggered <;> cases method <;> simp [of?] at made <;> subst made <;> rfl

/-- The value of a flow kernel at point `i` of a line. -/
def carry (k : Kernel α) (o : Offset) (velocity line : Int → α) (i : Int) : α :=
  match k.formula with
  | .upwind formula => formula (velocity i) (Window.on line i .centred k.width)
  | .flow formula => formula (Window.on velocity i o k.width) (Window.on line i .centred k.width)
  | _ => 0

end Kernel

namespace Mesh

variable {m : Mesh α} {axis : Axis} {kind : Kind} {k : Kernel α} {v f : Field α} {place : Placement} {method : Method}

/-- A flow kernel takes its values point by point from the lines of velocity and field. -/
theorem applyFlow_values (bears : m.Bears f) (shaped : v.extents = f.extents) (fits : v.Fits) {staggered : Bool}
    (made : m.kernel axis ⟨kind, staggered⟩ method = .ok k) (flow : kind.isFlow = true)
    (whole : k.isSplit = false) (o : Offset) :
    ∃ r, m.applyFlow axis k o v f = .ok r ∧ Field.Alike f r ∧ ∀ x y z, f.HasPoint x y z →
      r.value x y z = if m.Evaluates axis false x y
        then k.carry o (v.along axis x y z) (f.along axis x y z) (axis.coordinate x y z) else 0 := by
  obtain ⟨own, -, reach⟩ := kernel_ok made
  let value (base i : Int) : Outcome (Option α) := do
    let fs ← Window.gather ((m.lineReader f axis).read f.data base) i .centred k.width
    match k.formula with
    | .upwind formula =>
      let vc ← (m.lineReader f axis).read v.data base i
      return some (formula vc fs)
    | .flow formula =>
      let vs ← Window.gather ((m.lineReader f axis).read v.data base) i o k.width
      return some (formula vs fs)
    | _ => Outcome.outOfRange
  have known (x y z : Int) (has : f.HasPoint x y z) (evaluated : m.Evaluates axis false x y) :
      value (f.lineBase axis x y z) (axis.coordinate x y z) =
        .ok (some (k.carry o (v.along axis x y z) (f.along axis x y z) (axis.coordinate x y z))) := by
    have reads (j : Int) (low : axis.coordinate x y z - k.width ≤ j) (high : j ≤ axis.coordinate x y z + k.width) :
        (f.reader axis).read v.data (f.lineBase axis x y z) j = .ok (v.along axis x y z j) := by
      rw [← Field.reader_congr shaped, ← Field.lineBase_congr shaped]
      exact Field.read_along fits ((Field.hasPoint_congr shaped).mpr has)
        ((Field.reads_congr shaped).mpr (bears.reads (z := z) reach evaluated low high))
    simp only [value, bears.lineReader_eq]
    rw [Window.gather_ok fun j low high => Field.read_along bears.fits has (bears.reads reach evaluated low high)]
    rcases Kernel.of?_flow own flow with split | ⟨formula, given⟩ | ⟨formula, given⟩
    · rw [whole] at split
      cases split
    · simp only [Kernel.carry, given, reads (axis.coordinate x y z) (by omega) (by omega)]
      rfl
    · simp only [Kernel.carry, given, Window.gather_ok reads]
      rfl
  rw [applyFlow, bears.checkLines_ok]
  obtain ⟨r, swept, values⟩ := bears.swept known
  exact ⟨r, Outcome.bind_eq_ok.mpr ⟨(), rfl, swept⟩, values⟩

/-- A flow derivative finds its kernel as it was planned. The split method adds up two others. -/
theorem flow_bind (shaped : v.extents = f.extents) : m.flow axis kind v f place method =
    (m.flowPlan axis v f place >>= fun plan =>
      if m.axisSize axis = 1 then return f.zeroLike
      else m.kernel axis ⟨kind, plan.1⟩ method >>= fun k =>
        if k.isSplit then do
          let upwind ← m.kernel axis ⟨.upwind, plan.1⟩ .standard
          let advected ← m.applyFlow axis upwind plan.2 v f
          let dv ← m.derivative axis .first v (.real f.loc) .standard false
          advected.add (← f.mul dv)
        else m.applyFlow axis k plan.2 v f) := by
  have same : v.sameShape f = true := decide_eq_true shaped
  rw [flow, same]
  rfl

omit [Scalar α] in
/-- Where a flow derivative can be planned, so can that of its velocity at the place of the field. -/
theorem flowPlan_ok {plan : Bool × Offset} (planned : m.flowPlan axis v f place = .ok plan) :
    ∃ p, m.plan axis v.loc (.real f.loc) = .ok p ∧ (p.staggered, p.offset) = plan ∧ p.inputTo = none ∧
      p.resultTo = none ∧ p.output = f.loc := by
  have apart : axis.low ≠ .centre := by cases axis <;> decide
  simp only [flowPlan] at planned
  split at planned
  · cases planned
  split at planned
  next own =>
    cases planned
    exact ⟨_, if_pos own.symm, rfl, rfl, rfl, rfl⟩
  next other =>
    split at planned
    · cases planned
    next staggers =>
      split at planned
      next ends =>
        cases planned
        refine ⟨⟨.centre, true, .centre, .toCentre, none, none⟩, ?_, rfl, rfl, rfl, ends.2.symm⟩
        simp [Mesh.plan, Placement.orElse, ends, apart.symm, staggers]
      split at planned
      next ends =>
        cases planned
        refine ⟨⟨axis.low, true, axis.low, .toLow, none, none⟩, ?_, rfl, rfl, rfl, ends.2.symm⟩
        simp [Mesh.plan, Placement.orElse, ends, apart, staggers]
      · cases planned

section Flow

variable (bears : m.Bears f) (shaped : v.extents = f.extents) (fits : v.Fits) {plan : Bool × Offset}
  (planned : m.flowPlan axis v f place = .ok plan) (made : m.kernel axis ⟨kind, plan.1⟩ method = .ok k)
include bears shaped fits planned made

theorem flow_values (flow : kind.isFlow = true) (whole : k.isSplit = false) :
    ∃ d, m.flow axis kind v f place method = .ok d ∧ Field.Alike f d ∧ ∀ x y z, f.HasPoint x y z →
      d.value x y z = if m.axisSize axis ≠ 1 ∧ m.Evaluates axis false x y
        then k.carry plan.2 (v.along axis x y z) (f.along axis x y z) (axis.coordinate x y z) else 0 := by
  rw [flow_bind shaped, planned]
  change ∃ d, (if m.axisSize axis = 1 then _ else _) = Except.ok d ∧ _
  by_cases single : m.axisSize axis = 1
  · refine ⟨f.zeroLike, if_pos single, Field.alike_zeroLike f, fun x y z has => ?_⟩
    rw [if_neg fun several => several.1 single, Field.value_zeroLike bears.fits has]
  · obtain ⟨d, computed, alike, values⟩ := applyFlow_values bears shaped fits made flow whole plan.2
    refine ⟨d, ?_, alike, by simpa only [ne_eq, single, not_false_eq_true, true_and] using values⟩
    rw [if_neg single, made]
    change (if k.isSplit = true then _ else _) = _
    rw [whole]
    exact computed

/-- A split derivative adds what is carried and the field times the slope of the velocity. Where nothing is evaluated
it still multiplies the field, by zero. -/
theorem flow_split_values (split : k.isSplit = true) (aligned : v.aligned = f.aligned) {upwind first : Kernel α}
    (found : m.kernel axis ⟨.upwind, plan.1⟩ .standard = .ok upwind)
    (found' : m.kernel axis ⟨.first, plan.1⟩ .standard = .ok first) :
    ∃ d, m.flow axis kind v f place method = .ok d ∧ Field.Alike f d ∧ ∀ x y z, f.HasPoint x y z →
      d.value x y z = if m.axisSize axis = 1 then 0 else
        (if m.Evaluates axis false x y
          then upwind.carry plan.2 (v.along axis x y z) (f.along axis x y z) (axis.coordinate x y z) else 0) +
        f.value x y z * (if m.Evaluates axis false x y
          then first.slope .first plan.2 v.nz (v.along axis x y z) (axis.coordinate x y z) else 0) := by
  rw [flow_bind shaped, planned]
  change ∃ d, (if m.axisSize axis = 1 then _ else _) = Except.ok d ∧ _
  by_cases single : m.axisSize axis = 1
  · refine ⟨f.zeroLike, if_pos single, Field.alike_zeroLike f, fun x y z has => ?_⟩
    rw [if_pos single, Field.value_zeroLike bears.fits has]
  obtain ⟨advected, computed, alike, carried⟩ := applyFlow_values bears shaped fits found rfl
    (Kernel.of?_upwind (kernel_ok found).1) plan.2
  obtain ⟨p, direct, rfl, input, result, output⟩ := flowPlan_ok planned
  have bearsV : m.Bears v := { bears with fits, shaped := shaped.trans bears.shaped }
  obtain ⟨dv, sloped, alikeV, slopes⟩ : ∃ dv, m.derivative axis .first v (.real f.loc) .standard false = .ok dv ∧
      Field.Alike (v.retag p.output) dv ∧ _ := derivative_values bearsV direct input result found' rfl
  rw [output] at alikeV
  obtain ⟨nx, ny, nz⟩ := Field.sizes_congr shaped
  have size : v.data.size = f.data.size := by
    rw [Field.size_of_fits fits, Field.size_of_fits bears.fits, nx, ny, nz]
  have alikeF : Field.Alike f (v.retag f.loc) := ⟨nx, ny, nz, size, rfl, aligned⟩
  obtain ⟨product, multiplied, alikeP, products⟩ := Field.combine_alike bears.fits (alikeF.trans alikeV) "Mul" (· * ·)
  obtain ⟨sum, added, alikeS, sums⟩ :=
    Field.combine_alike (alike.fits bears.fits) (alike.symm.trans alikeP) "Add" (· + ·)
  refine ⟨sum, ?_, alike.trans alikeS, fun x y z has => ?_⟩
  · rw [if_neg single, made]
    change (if k.isSplit = true then _ else _) = Except.ok sum
    rw [if_pos split, found]
    refine Outcome.bind_eq_ok.mpr ⟨upwind, rfl, Outcome.bind_eq_ok.mpr ⟨advected, computed, ?_⟩⟩
    exact Outcome.bind_eq_ok.mpr ⟨dv, sloped, Outcome.bind_eq_ok.mpr ⟨product, multiplied, added⟩⟩
  · have slope := slopes x y z ((Field.hasPoint_congr shaped).mpr has)
    simp only [ne_eq, single, not_false_eq_true, true_and] at slope
    rw [if_neg single, sums x y z (alike.hasPoint.mpr has), carried x y z has, products x y z has, slope]

/-- A flow derivative with a kernel can be taken, and a split one if the kernels that it is put together from are there
too. -/
theorem flow_ok (flow : kind.isFlow = true) (parts : k.isSplit = true → v.aligned = f.aligned ∧
      ∃ upwind first, m.kernel axis ⟨.upwind, plan.1⟩ .standard = .ok upwind ∧
        m.kernel axis ⟨.first, plan.1⟩ .standard = .ok first) :
    ∃ d, m.flow axis kind v f place method = .ok d ∧ Field.Alike f d := by
  cases split : k.isSplit with
  | true =>
    obtain ⟨aligned, upwind, first, found, found'⟩ := parts split
    obtain ⟨d, computed, alike, -⟩ := flow_split_values bears shaped fits planned made split aligned found found'
    exact ⟨d, computed, alike⟩
  | false =>
    obtain ⟨d, computed, alike, -⟩ := flow_values bears shaped fits planned made flow split
    exact ⟨d, computed, alike⟩

end Flow

theorem flow_total (holds : m.Holds f) (shaped : v.extents = f.extents) (fits : v.Fits) {plan : Bool × Offset}
    (planned : m.flowPlan axis v f place = .ok plan) (made : m.kernel axis ⟨kind, plan.1⟩ method = .ok k)
    (flow : kind.isFlow = true) (parts : k.isSplit = true → v.aligned = f.aligned ∧
      ∃ upwind first, m.kernel axis ⟨.upwind, plan.1⟩ .standard = .ok upwind ∧
        m.kernel axis ⟨.first, plan.1⟩ .standard = .ok first) :
    ∃ d, m.flow axis kind v f place method = .ok d := by
  obtain ⟨d, computed, -⟩ := flow_ok holds.bears shaped fits planned made flow parts
  exact ⟨d, computed⟩

end Mesh

end HaloMesh
