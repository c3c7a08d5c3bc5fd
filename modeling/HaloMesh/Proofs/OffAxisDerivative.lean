import HaloMesh.Proofs.ExactArithmetic
import HaloMesh.Proofs.OptionKeys

/-! Derivatives at locations that are staggered along other axes. Over exact arithmetic a linear kernel along one
axis and a half step along another are sums over two different lines, and it does not matter which is taken first.
What does matter is where the kernel is evaluated: a half step along x reads the guard columns. -/

namespace HaloMesh

open Exact (around)

namespace Field

/-! Points by their coordinates. -/

section Points

variable {α : Type} {f g : Field α} {axis : Axis} {p : Axis → Int} {j : Int}

def HasAt (f : Field α) (p : Axis → Int) : Prop := f.HasPoint (p .x) (p .y) (p .z)

/-- Where point `j` of a line along an axis lies; z lines wrap. -/
def turned (f : Field α) (axis : Axis) (j : Int) : Int := if axis = .z then j % f.nz else j

theorem HasAt.update (has : f.HasAt p) (within : f.Reads axis j) :
    f.HasAt (Function.update p axis (f.turned axis j)) := by
  obtain ⟨⟨inX, inY⟩, inZ⟩ := has
  cases axis with
  | x => exact ⟨⟨within.resolve_left (by decide), inY⟩, inZ⟩
  | y => exact ⟨⟨inX, within.resolve_left (by decide)⟩, inZ⟩
  | z => exact ⟨⟨inX, inY⟩, Int.emod_nonneg _ (by omega), Int.emod_lt_of_pos _ (by omega)⟩

theorem HasAt.range (has : f.HasAt p) (axis : Axis) : 0 ≤ p axis ∧ p axis < f.axisSize axis := by
  obtain ⟨⟨inX, inY⟩, inZ⟩ := has
  cases axis
  · exact inX
  · exact inY
  · exact inZ

theorem Alike.hasAt (alike : Alike f g) : g.HasAt p ↔ f.HasAt p := alike.hasPoint

theorem Alike.turned (alike : Alike f g) : g.turned axis j = f.turned axis j := by
  rw [Field.turned, Field.turned, alike.nz]

variable [Scalar α]

def pointValue (f : Field α) (p : Axis → Int) : α := f.value (p .x) (p .y) (p .z)

/-- The values on the line through a point. -/
def lineAt (f : Field α) (axis : Axis) (p : Axis → Int) (j : Int) : α :=
  f.pointValue (Function.update p axis (f.turned axis j))

theorem along_eq (f : Field α) (axis : Axis) (p : Axis → Int) :
    f.along axis (p .x) (p .y) (p .z) = f.lineAt axis p := by
  funext j
  cases axis <;> simp [along, lineAt, pointValue, turned]

theorem halfStep_at (fits : f.Fits) (step : HalfStep) :
    ∃ r, f.halfStep step.axis step.toLow step.target = .ok r ∧ Alike (f.retag step.target) r ∧
      ∀ p, f.HasAt p → r.pointValue p = stepped (f.lineAt step.axis p) (decide (step.axis = .z)) step.toLow
        (f.axisSize step.axis) (p step.axis) := by
  obtain ⟨r, computed, alike, values⟩ := halfStep_values fits step.axis step.toLow step.target
  refine ⟨r, computed, alike, fun p has => ?_⟩
  have here : step.axis.coordinate (p .x) (p .y) (p .z) = p step.axis := by cases step.axis <;> rfl
  rw [pointValue, values _ _ _ has, along_eq, here]

theorem eq_of_pointValues (fits : f.Fits) (alike : Alike f g) (same : ∀ p, f.HasAt p → g.pointValue p = f.pointValue p) :
    g = f :=
  eq_of_values fits alike fun x y z has => same (fun axis => axis.coordinate x y z) has

end Points

/-! Half steps over exact arithmetic. -/

section HalfSteps

variable {f : Field ℝ} {step : HalfStep}

/-- A half step averages points of the line through a point. -/
theorem stepped_averages {p : Axis → Int} (has : f.HasAt p) (step : HalfStep) : ∃ s : Int → ℝ,
    (∀ j, s j ≠ 0 → f.Reads step.axis (p step.axis + j)) ∧ around s (fun _ => 1) (p step.axis) = 1 ∧
      ∀ line, stepped line (decide (step.axis = .z)) step.toLow (f.axisSize step.axis) (p step.axis) =
        around s line (p step.axis) := by
  obtain ⟨low, high⟩ := has.range step.axis
  obtain ⟨s, inside, total, weighted⟩ := Exact.averages_stepped (decide (step.axis = .z)) step.toLow low high
  exact ⟨s, fun j counts => (inside j counts).imp_left of_decide_eq_true, total, weighted⟩

/-- A field that is the sum of two others of one shape. -/
structure IsSum (sum f g : Field ℝ) : Prop where
  first : Alike f sum
  second : Alike f g
  values : ∀ p, f.HasAt p → sum.pointValue p = f.pointValue p + g.pointValue p

/-- A field is the sum of any like it and of what is left of it. -/
theorem sub_isSum {sum : Field ℝ} (fits : f.Fits) (alike : Alike f sum) :
    ∃ rest, sum.sub f = .ok rest ∧ IsSum sum f rest := by
  obtain ⟨rest, taken, left, less⟩ := combine_alike (alike.fits fits) alike.symm "Sub" (· - ·)
  refine ⟨rest, taken, alike, alike.trans left, fun p has => ?_⟩
  have difference : rest.pointValue p = sum.pointValue p - f.pointValue p := less _ _ _ (alike.hasPoint.mpr has)
  rw [difference]
  ring

def ConstantAlong (f : Field ℝ) (axis : Axis) : Prop :=
  ∀ p, f.HasAt p → ∀ j, f.Reads axis j → f.lineAt axis p j = f.pointValue p

theorem halfStep_constant (fits : f.Fits) (constant : f.ConstantAlong step.axis) :
    f.halfStep step.axis step.toLow step.target = .ok (f.retag step.target) := by
  obtain ⟨r, computed, alike, values⟩ := halfStep_at fits step
  rw [computed]
  apply congrArg
  apply eq_of_pointValues (f := f.retag step.target) fits alike
  intro p has
  obtain ⟨s, inside, total, weighted⟩ := stepped_averages (f := f) has step
  have level : around s (f.lineAt step.axis p) (p step.axis) = around s (fun _ => f.pointValue p) (p step.axis) :=
    Exact.around_congr fun j counts => constant p has _ (inside j counts)
  rw [values p has, weighted, level, Exact.around_const, total, mul_one]
  rfl

theorem IsSum.halfStep {sum g : Field ℝ} (fits : f.Fits) (added : IsSum sum f g) (step : HalfStep) :
    ∃ sum' f' g', sum.halfStep step.axis step.toLow step.target = .ok sum' ∧
      f.halfStep step.axis step.toLow step.target = .ok f' ∧ g.halfStep step.axis step.toLow step.target = .ok g' ∧
      IsSum sum' f' g' ∧ f'.Fits := by
  obtain ⟨sum', computed, alike, values⟩ := halfStep_at (added.first.fits fits) step
  obtain ⟨f', computed', alike', values'⟩ := halfStep_at fits step
  obtain ⟨g', computed'', alike'', values''⟩ := halfStep_at (added.second.fits fits) step
  refine ⟨sum', f', g', computed, computed', computed'',
    ⟨alike'.symm.trans ((added.first.retag _).trans alike), alike'.symm.trans ((added.second.retag _).trans alike''), ?_⟩,
    alike'.fits fits⟩
  intro p has'
  have has : f.HasAt p := alike'.hasAt.mp has'
  obtain ⟨s, inside, -, weighted⟩ := stepped_averages has step
  rw [values p (added.first.hasAt.mpr has), values' p has, values'' p (added.second.hasAt.mpr has),
    added.first.axisSize, added.second.axisSize, weighted, weighted, weighted, ← Exact.around_add]
  apply Exact.around_congr
  intro j counts
  simp only [lineAt, added.first.turned, added.second.turned]
  exact added.values _ (has.update (inside j counts))

end HalfSteps

end Field

namespace Mesh

variable {m : Mesh ℝ} {axis : Axis} {inc : Bool} {w : Int → ℝ} {f d : Field ℝ} {step : HalfStep}

/-- Weights that reach no further along an axis than the fields of a block. -/
def Reached (m : Mesh ℝ) (axis : Axis) (w : Int → ℝ) : Prop :=
  ∀ (f : Field ℝ) (inc : Bool) (p : Axis → Int), m.Holds f → m.Evaluates axis inc (p .x) (p .y) → ∀ j, w j ≠ 0 → f.Reads axis (p axis + j)

/-- A field with the weighted sums of another along an axis, zero where none are evaluated. -/
structure Weighted (m : Mesh ℝ) (axis : Axis) (w : Int → ℝ) (inc : Bool) (f d : Field ℝ) : Prop where
  alike : Field.Alike f d
  values : ∀ p, f.HasAt p →
    d.pointValue p = if m.Evaluates axis inc (p .x) (p .y) then around w (f.lineAt axis p) (p axis) else 0

/-- Whether to evaluate does not depend on the place along the axis of a half step. -/
def Even (axis : Axis) (inc : Bool) (step : HalfStep) : Prop := step.axis ≠ axis ∧ (axis = .z → inc = true ∨ step.axis ≠ .x)

theorem evaluates_update (even : Even axis inc step) (p : Axis → Int) (j : Int) :
    let q := Function.update p step.axis j
    m.Evaluates axis inc (q .x) (q .y) ↔ m.Evaluates axis inc (p .x) (p .y) := by
  obtain ⟨across, apart⟩ := even
  cases axis with
  | x => simp only [Evaluates, Function.update_of_ne across.symm]
  | y => simp only [Evaluates, Function.update_of_ne across.symm]
  | z =>
    rcases apart rfl with rfl | other
    · simp only [Evaluates, true_or]
    · simp only [Evaluates, Function.update_of_ne other.symm]

/-- Weighted sums along one axis and a half step along another can be taken in either order. -/
theorem Weighted.halfStep (holds : m.Holds f) (reached : m.Reached axis w) (even : Even axis inc step)
    (before : m.Weighted axis w inc f d) {g e : Field ℝ} (moved : f.halfStep step.axis step.toLow step.target = .ok g)
    (after : m.Weighted axis w inc g e) : d.halfStep step.axis step.toLow step.target = .ok e := by
  obtain ⟨r, computed, alike, values⟩ := Field.halfStep_at (before.alike.fits holds.fits) step
  obtain ⟨g', moved', alike', values'⟩ := Field.halfStep_at holds.fits step
  obtain rfl : g' = g := Except.ok.inj (moved'.symm.trans moved)
  rw [computed]
  apply congrArg
  apply Field.eq_of_pointValues (after.alike.fits (alike'.fits holds.fits))
    (after.alike.symm.trans (alike'.symm.trans ((before.alike.retag _).trans alike)))
  intro p hasE
  have hasG : g'.HasAt p := after.alike.hasAt.mp hasE
  have has : f.HasAt p := alike'.hasAt.mp hasG
  obtain ⟨s, inside, -, weighted⟩ := Field.stepped_averages has step
  rw [values p (before.alike.hasAt.mpr has), before.alike.axisSize, weighted, after.values p hasG]
  split
  next evaluated =>
    have inner (j : Int) (counts : s j ≠ 0) : d.lineAt step.axis p (p step.axis + j) =
        around w (f.lineAt axis (Function.update p step.axis (f.turned step.axis (p step.axis + j)))) (p axis) := by
      rw [Field.lineAt, before.alike.turned, before.values _ (has.update (inside j counts)),
        if_pos ((evaluates_update even p _).mpr evaluated), Function.update_of_ne even.1.symm]
    have outer (j : Int) (counts : w j ≠ 0) : g'.lineAt axis p (p axis + j) =
        around s (f.lineAt step.axis (Function.update p axis (f.turned axis (p axis + j)))) (p step.axis) := by
      have same : g'.turned axis (p axis + j) = f.turned axis (p axis + j) := alike'.turned
      rw [Field.lineAt, same, values' _ (has.update (reached f inc p holds evaluated j counts)),
        Function.update_of_ne even.1, weighted]
    calc around s (d.lineAt step.axis p) (p step.axis)
      _ = around s (fun u => around w (f.lineAt axis (Function.update p step.axis (f.turned step.axis u))) (p axis))
            (p step.axis) := Exact.around_congr inner
      _ = around w (fun v => around s (fun u => f.lineAt axis (Function.update p step.axis (f.turned step.axis u)) v)
            (p step.axis)) (p axis) := Exact.around_comm ..
      _ = around w (fun v => around s (f.lineAt step.axis (Function.update p axis (f.turned axis v))) (p step.axis))
            (p axis) := by
        simp only [Field.lineAt, Function.update_comm even.1]
        rfl
      _ = around w (g'.lineAt axis p) (p axis) := (Exact.around_congr outer).symm
  next skipped =>
    have flat : around s (d.lineAt step.axis p) (p step.axis) = around s (fun _ => 0) (p step.axis) := by
      apply Exact.around_congr
      intro j counts
      rw [Field.lineAt, before.alike.turned, before.values _ (has.update (inside j counts)),
        if_neg (mt (evaluates_update even p _).mp skipped)]
    rw [flat, Exact.around_const, zero_mul]

end Mesh

/-! Whole interpolations. -/

namespace Field

variable {f : Field ℝ}

/-- The half steps on the way, one after the other. -/
noncomputable def follow (f : Field ℝ) (steps : List HalfStep) : Outcome (Field ℝ) :=
  steps.foldlM (fun (g : Field ℝ) step => g.halfStep step.axis step.toLow step.target) f

theorem follow_cons {g : Field ℝ} {step : HalfStep} (moved : f.halfStep step.axis step.toLow step.target = .ok g)
    (rest : List HalfStep) : f.follow (step :: rest) = g.follow rest := by
  rw [follow, List.foldlM_cons, moved]
  rfl

theorem follow_ok (steps : List HalfStep) (fits : f.Fits) : ∃ g, f.follow steps = .ok g ∧
    Alike (f.retag (steps.foldl (fun _ step => step.target) f.loc)) g := by
  induction steps generalizing f with
  | nil => exact ⟨f, rfl, .refl _⟩
  | cons step rest ih =>
    obtain ⟨g, moved, alike, -⟩ := halfStep_at fits step
    obtain ⟨r, followed, alike'⟩ := ih (alike.fits fits)
    refine ⟨r, (follow_cons moved rest).trans followed, ?_⟩
    have here : g.loc = step.target := alike.loc
    rw [here] at alike'
    exact (alike.retag _).trans alike'

theorem follow_constant (steps : List HalfStep) (fits : f.Fits)
    (constant : ∀ step ∈ steps, f.ConstantAlong step.axis) :
    f.follow steps = .ok (f.retag (steps.foldl (fun _ step => step.target) f.loc)) := by
  induction steps generalizing f with
  | nil => rfl
  | cons step rest ih =>
    rw [follow_cons (halfStep_constant fits (constant step List.mem_cons_self)) rest]
    exact ih (f := f.retag step.target) fits fun other later => constant other (List.mem_cons_of_mem _ later)

theorem IsSum.follow {sum g : Field ℝ} (steps : List HalfStep) (fits : f.Fits) (added : IsSum sum f g) :
    ∃ sum' f' g', sum.follow steps = .ok sum' ∧ f.follow steps = .ok f' ∧ g.follow steps = .ok g' ∧
      IsSum sum' f' g' := by
  induction steps generalizing sum f g with
  | nil => exact ⟨sum, f, g, rfl, rfl, rfl, added⟩
  | cons step rest ih =>
    obtain ⟨sum', f', g', moved, moved', moved'', added', fits'⟩ := added.halfStep fits step
    obtain ⟨sum'', f'', g'', followed⟩ := ih fits' added'
    rw [follow_cons moved, follow_cons moved', follow_cons moved'']
    exact ⟨sum'', f'', g'', followed⟩

end Field

theorem Location.route_target (source target : Location) :
    (source.route target).foldl (fun _ step => step.target) source = target := by
  cases source <;> cases target <;> rfl

theorem Field.interpolate_follow (f : Field ℝ) (target : Location) :
    f.interpolate (.real target) = f.follow (f.loc.route target) := f.interpolate_eq target

/-- Weighted sums along one axis and half steps along others can be taken in either order. -/
theorem Mesh.Weighted.follow {m : Mesh ℝ} {axis : Axis} {inc : Bool} {w : Int → ℝ}
    {sums : Field ℝ → Outcome (Field ℝ)} (reached : m.Reached axis w)
    (computes : ∀ f, m.Holds f → ∃ d, sums f = .ok d ∧ m.Weighted axis w inc f d) (steps : List HalfStep)
    (even : ∀ step ∈ steps, Mesh.Even axis inc step) {f : Field ℝ} (holds : m.Holds f) :
    (sums f >>= fun d => d.follow steps) = (f.follow steps >>= sums) := by
  induction steps generalizing f with
  | nil =>
    change (sums f >>= fun d => (.ok d : Outcome (Field ℝ))) = sums f
    cases sums f <;> rfl
  | cons step rest ih =>
    obtain ⟨d, summed, before⟩ := computes f holds
    obtain ⟨g, moved, alike, -⟩ := Field.halfStep_at holds.fits step
    have holdsG : m.Holds g := (holds.retag step.target).of_alike alike
    obtain ⟨e, summed', after⟩ := computes g holdsG
    have across := before.halfStep holds reached (even step List.mem_cons_self) moved after
    rw [Field.follow_cons moved, ← ih (fun other later => even other (List.mem_cons_of_mem _ later)) holdsG, summed,
      summed']
    exact Field.follow_cons across rest

namespace Mesh

variable {m : Mesh ℝ} {axis : Axis} {kind : Kind} {method : Method} {k : Kernel ℝ} {f : Field ℝ} {inc : Bool}

theorem derivative_own (several : m.axisSize axis ≠ 1) (made : m.kernel axis ⟨kind, false⟩ method = .ok k)
    (f : Field ℝ) (inc : Bool) :
    m.derivative axis kind f (.real f.loc) method inc = m.differenced axis kind k .centred f inc := by
  rw [derivative_eq (m.plan_own axis f.loc) several made]
  exact bind_pure (m.differenced axis kind k .centred f inc)

/-- Along an axis with a single point a derivative is a sum of nothing. -/
theorem weighted_single (single : m.axisSize axis = 1) (holds : m.Holds f) (method : Method) (inc : Bool) :
    ∃ d, m.derivative axis kind f (.real f.loc) method inc = .ok d ∧ m.Weighted axis (fun _ => 0) inc f d := by
  refine ⟨f.zeroLike.retag f.loc, derivative_single (m.plan_own axis f.loc) single,
    ⟨rfl, rfl, rfl, Array.size_map .., rfl, rfl⟩, fun p has => ?_⟩
  have zero : (f.zeroLike.retag f.loc).pointValue p = 0 := (Field.value_zeroLike holds.fits has).trans Exact.zero_eq
  have sum : around (fun _ => 0) (f.lineAt axis p) (p axis) = 0 := by simp [around]
  rw [zero, sum, ite_self]

/-- A linear kernel takes the same weighted sums in all blocks with more than one point along the axis. -/
theorem weighted_common (axis : Axis) (own : Kernel.of? ⟨kind, false⟩ k.method = some k) (linear : k.isLinear = true) (depth : Nat) :
    ∃ w : Int → ℝ, (∀ j, w j ≠ 0 → -(k.width : Int) ≤ j ∧ j ≤ k.width) ∧
      ∀ (m : Mesh ℝ) (method : Method), m.kernel axis ⟨kind, false⟩ method = .ok k → m.localNz = depth →
        m.axisSize axis ≠ 1 → ∀ inc f, m.Holds f →
          ∃ d, m.derivative axis kind f (.real f.loc) method inc = .ok d ∧ m.Weighted axis w inc f d := by
  have plain : kind.isFlow = false := by
    cases kind <;> cases method : k.method <;> simp [Kernel.of?, method] at own <;>
      first | rfl | (rw [← own] at linear; cases linear)
  obtain ⟨w, near, weighted⟩ := Exact.slope_weighted own linear rfl kind depth
  refine ⟨w, near, fun m method made deep several inc f holds => ?_⟩
  obtain ⟨d, computed, alike, values⟩ := differenced_values holds.bears made plain .centred inc
  refine ⟨d, (derivative_own several made f inc).trans computed, alike, fun p has => ?_⟩
  have here : axis.coordinate (p .x) (p .y) (p .z) = p axis := by cases axis <;> rfl
  have deep' : f.nz = depth := by
    have := holds.sizes.2.2
    omega
  rw [Field.pointValue, values _ _ _ has, Field.along_eq, here, deep', weighted, Exact.zero_eq]

/-- A linear kernel takes weighted sums at the place of its input. -/
theorem derivative_weighted (made : m.kernel axis ⟨kind, false⟩ method = .ok k) (linear : k.isLinear = true) :
    ∃ w, m.Reached axis w ∧ ∀ inc f, m.Holds f →
      ∃ d, m.derivative axis kind f (.real f.loc) method inc = .ok d ∧ m.Weighted axis w inc f d := by
  by_cases single : m.axisSize axis = 1
  · exact ⟨fun _ => 0, fun f inc p holds evaluated j counts => absurd rfl counts,
      fun inc f holds => weighted_single single holds method inc⟩
  · obtain ⟨own, -, reach⟩ := kernel_ok made
    obtain ⟨w, near, weighted⟩ := weighted_common axis own linear m.localNz.toNat
    refine ⟨w, fun f inc p holds evaluated j counts => ?_, fun inc f holds =>
      weighted m method made (by have := holds.points; omega) single inc f holds⟩
    obtain ⟨low, high⟩ := near j counts
    have here : axis.coordinate (p .x) (p .y) (p .z) = p axis := by cases axis <;> rfl
    exact holds.bears.reads (z := p .z) reach evaluated (by omega) (by omega)

/-- A derivative at a location off its axis is taken at the place of the input and then moved. -/
theorem derivative_off_axis (made : m.kernel axis ⟨kind, false⟩ method = .ok k) (staggered : m.shape.staggerGrids = true)
    (holds : m.Holds f) {target : Location} (source : f.loc ≠ axis.low) (off : target ≠ axis.low) {d : Field ℝ}
    (own : m.derivative axis kind f (.real f.loc) method inc = .ok d) (alike : Field.Alike f d) :
    m.derivative axis kind f (.real target) method inc = d.follow (f.loc.route target) := by
  by_cases stays : target = f.loc
  · subst stays
    rw [own, Location.route, if_pos rfl]
    rfl
  · have planned : m.plan axis f.loc (.real target) = .ok
        { output := target, staggered := false, evaluatedAt := f.loc, offset := .centred, inputTo := none
          resultTo := some target } := by
      simp [plan, Placement.orElse, stays, staggered, source, off]
    by_cases single : m.axisSize axis = 1
    · obtain rfl : f.zeroLike.retag f.loc = d :=
        Except.ok.inj ((derivative_single (m.plan_own axis f.loc) single).symm.trans own)
      have flat (step : HalfStep) : (f.zeroLike.retag f.loc).ConstantAlong step.axis := by
        intro p has j within
        have zero (q : Axis → Int) (has : f.HasAt q) : (f.zeroLike.retag f.loc).pointValue q = 0 :=
          (Field.value_zeroLike holds.fits has).trans Exact.zero_eq
        rw [Field.lineAt, zero _ (alike.hasAt.mp (has.update within)), zero p (alike.hasAt.mp has)]
      rw [derivative_single planned single, Field.follow_constant _ (alike.fits holds.fits) fun step _ => flat step]
      exact congrArg (fun loc => Except.ok (f.zeroLike.retag loc)) (Location.route_target f.loc target).symm
    · rw [derivative_own single made] at own
      rw [derivative_eq planned single made]
      change (m.differenced axis kind k .centred f inc >>= fun r => r.interpolate (.real target)) = _
      rw [own, ← alike.loc, ← Field.interpolate_follow]
      rfl

end Mesh

namespace Mesh

variable {m : Mesh ℝ} {axis : Axis} {f g d e : Field ℝ} {w : Int → ℝ} {inc inc' : Bool} {source target : Location}

theorem even_route (here : source ≠ axis.low) (there : target ≠ axis.low)
    (apart : axis = .z → inc = true ∨ source ≠ .xlow ∧ target ≠ .xlow) (step : HalfStep)
    (member : step ∈ source.route target) : Even axis inc step := by
  have ends := Location.mem_route member
  refine ⟨fun same => ?_, fun vertical => (apart vertical).imp_right fun centred sideways => ?_⟩
  · rw [same] at ends
    exact ends.elim here there
  · rw [sideways] at ends
    exact ends.elim centred.1 centred.2

theorem Holds.interior (holds : m.Holds f) {p : Axis → Int} (inside : m.isInterior (p .x) (p .y) = true)
    (low : 0 ≤ p .z) (high : p .z < m.localNz) :
    f.HasAt p ∧ ∀ axis inc, m.Evaluates axis inc (p .x) (p .y) :=
  holds.interior_point inside low high

/-- Whether guard columns are included does not matter to the interior. -/
theorem Weighted.interior (first : m.Weighted axis w inc f d) (second : m.Weighted axis w inc' f e)
    {p : Axis → Int} (has : f.HasAt p) (evaluated : ∀ inc, m.Evaluates axis inc (p .x) (p .y)) :
    d.pointValue p = e.pointValue p := by
  rw [first.values p has, second.values p has, if_pos (evaluated inc), if_pos (evaluated inc')]

theorem Weighted.retag (holds : m.Holds f) (first : m.Weighted axis w inc f d)
    (second : m.Weighted axis w inc (f.retag target) e) : e = d.retag target := by
  apply Field.eq_of_pointValues (f := d.retag target) (first.alike.fits holds.fits)
    ((first.alike.symm.retag target).trans second.alike)
  intro p has
  have hasF : f.HasAt p := first.alike.hasAt.mp has
  exact (second.values p hasF).trans (first.values p hasF).symm

end Mesh

section Theorem

variable {m : Mesh ℝ} {axis : Axis} {kind : Kind} {method : Method} {k : Kernel ℝ} {f : Field ℝ} {target : Location}
  {count i : Nat} {warnings : List String}

/-- Over exact arithmetic, a linear derivative that is moved to a location off its axis and the derivative of the
moved field differ by what the derivative in the guard columns would have added. They are the same field unless it
is a derivative along z that is moved along x. -/
theorem off_axis_derivative_gap (source : GridSource ℝ) (options : Options ℝ) (inside : i < count)
    (loaded : Mesh.load source options ⟨i, count⟩ = .ok (m, warnings)) (room : m.HasRoom)
    (staggered : m.shape.staggerGrids = true) (shaped : f.extents = m.extents)
    (made : m.kernel axis ⟨kind, false⟩ method = .ok k) (linear : k.isLinear = true) (here : f.loc ≠ axis.low)
    (there : target ≠ axis.low) :
    ∃ d g e own whole rest gap,
      m.derivative axis kind f (.real target) method false = .ok d ∧
      f.interpolate (.real target) = .ok g ∧ m.derivative axis kind g (.real target) method false = .ok e ∧
      m.derivative axis kind f (.real f.loc) method false = .ok own ∧
      m.derivative axis kind f (.real f.loc) method true = .ok whole ∧
      whole.sub own = .ok rest ∧ rest.interpolate (.real target) = .ok gap ∧
      (∀ x y z, m.isInterior x y = true → 0 ≤ z → z < m.localNz → ∃ a b c, d.get x y z = .ok a ∧
        gap.get x y z = .ok b ∧ e.get x y z = .ok c ∧ c = a + b) ∧
      (axis ≠ .z ∨ f.loc ≠ .xlow ∧ target ≠ .xlow → d = e) ∧
      m.derivative axis kind f (.real target) method true = m.derivative axis kind g (.real target) method true ∧
      ((∀ step ∈ f.loc.route target, f.ConstantAlong step.axis) → e = own.retag target) := by
  obtain ⟨l, rfl, assigned⟩ := Layout.of_load loaded
  have holds : m.Holds f := Layout.holds (assigned i inside _ _ loaded) room shaped
  obtain ⟨w, reached, computes⟩ := Mesh.derivative_weighted made linear
  obtain ⟨own, computedOwn, weightedOwn⟩ := computes false f holds
  obtain ⟨whole, computedWhole, weightedWhole⟩ := computes true f holds
  obtain ⟨g, moved, alike⟩ := f.follow_ok (f.loc.route target) holds.fits
  rw [Location.route_target] at alike
  have placed : g.loc = target := alike.loc
  have holdsG : m.Holds g := (holds.retag target).of_alike alike
  obtain ⟨e, computedE, weightedE⟩ := computes false g holdsG
  obtain ⟨e', computedE', weightedE'⟩ := computes true g holdsG
  rw [placed] at computedE computedE'
  have fitsOwn := weightedOwn.alike.fits holds.fits
  obtain ⟨rest, taken, added⟩ := Field.sub_isSum fitsOwn (weightedOwn.alike.symm.trans weightedWhole.alike)
  obtain ⟨whole', d, gap, movedWhole, movedOwn, movedRest, addedToo⟩ := added.follow (f.loc.route target) fitsOwn
  have derived := Mesh.derivative_off_axis made staggered holds here there computedOwn weightedOwn.alike
  have derivedWhole := Mesh.derivative_off_axis made staggered holds here there computedWhole weightedWhole.alike
  have commutes (inc : Bool) (apart : axis = .z → inc = true ∨ f.loc ≠ .xlow ∧ target ≠ .xlow) :=
    Mesh.Weighted.follow reached (computes inc) (f.loc.route target) (Mesh.even_route here there apart) holds
  have filled : whole' = e' := by
    have both := commutes true fun _ => .inl rfl
    rw [computedWhole, moved] at both
    rw [← placed] at computedE'
    exact Except.ok.inj (movedWhole.symm.trans (both.trans computedE'))
  refine ⟨d, g, e, own, whole, rest, gap, derived.trans movedOwn, (f.interpolate_follow target).trans moved, computedE,
    computedOwn, computedWhole, taken, ?_, fun x y z interior low high => ?_, fun apart => ?_, ?_, fun constant => ?_⟩
  · have located : rest.loc = f.loc := added.second.loc.trans weightedOwn.alike.loc
    rw [rest.interpolate_follow, located, movedRest]
  · let p : Axis → Int := fun axis => axis.coordinate x y z
    obtain ⟨has, evaluated⟩ := holdsG.interior (p := p) interior low high
    have fitsE := weightedE.alike.fits holdsG.fits
    have fitsWhole := weightedE'.alike.fits holdsG.fits
    have hasD : d.HasAt p := addedToo.first.hasAt.mp (filled ▸ weightedE'.alike.hasAt.mpr has)
    have fitsD : d.Fits := addedToo.first.symm.fits (filled ▸ fitsWhole)
    refine ⟨_, _, _, Field.get_eq fitsD hasD, Field.get_eq (addedToo.second.fits fitsD) (addedToo.second.hasAt.mpr hasD),
      Field.get_eq fitsE (weightedE.alike.hasAt.mpr has), ?_⟩
    calc e.pointValue p
      _ = e'.pointValue p := weightedE.interior weightedE' has (evaluated axis)
      _ = d.pointValue p + gap.pointValue p := filled ▸ addedToo.values p hasD
  · have both := commutes false fun vertical => .inr (apart.resolve_left (not_not_intro vertical))
    rw [computedOwn, moved] at both
    rw [← placed] at computedE
    exact Except.ok.inj (movedOwn.symm.trans (both.trans computedE))
  · rw [derivedWhole, movedWhole, computedE', filled]
  · obtain rfl : f.retag target = g := by
      have still := f.follow_constant (f.loc.route target) holds.fits constant
      rw [Location.route_target] at still
      exact Except.ok.inj (still.symm.trans moved)
    exact weightedOwn.retag holds weightedE

end Theorem

/-! Four interior columns of a single row, with four points in z, on one rank. -/

/-- Six columns with two guard columns, one row and four points in z, on one rank. -/
noncomputable def staggeredOptions : Options ℝ :=
  ⟨[("nx", .whole 6), ("ny", .whole 1), ("nz", .whole 4), ("mxg", .whole 1), ("myg", .whole 1), ("nxpe", .whole 1),
    ("staggergrids", .flag true)]⟩

noncomputable def staggeredShape : GridShape ℝ :=
  { nx := 6, ny := 1, nz := 4, mxg := 1, myg := 1, zMin := Scalar.ofInt 0, zMax := Scalar.ofInt 1
    topology := .rectangular 1 true, shiftAngle := none, twistShift := false, periodicX := false, staggerGrids := true
    shiftXderivs := false, incIntShear := false }

theorem asked_staggered : GridShape.Asked staggeredOptions staggeredShape where
  sizes := by decide +kernel
  guards := by decide +kernel
  room := by decide +kernel
  range := ⟨Options.real_unset (by decide +kernel) _, Options.real_unset (by decide +kernel) _⟩
  extent := Exact.default_range
  separatrix := by decide +kernel
  legs := by decide +kernel
  topology := by decide +kernel
  flags := by decide +kernel
  straight := ⟨rfl, rfl⟩

/-- Grids that say nothing about the shape leave it to the options. -/
theorem load_staggered_of_silent {source : GridSource ℝ} (silent : ∀ name ∈ GridShape.variableNames, source.hasVariable name = false) :
    ∃ m, Mesh.load source staggeredOptions ⟨0, 1⟩ = .ok (m, []) ∧
      m.HasRoom ∧ m.shape = staggeredShape ∧ m.extents = ⟨6, 3, 4⟩ ∧ m.source = source := by
  have plain : staggeredOptions.Plain := by
    intro entry member inner same
    simp only [staggeredOptions, List.mem_cons, List.not_mem_nil, or_false] at member
    rcases member with rfl | rfl | rfl | rfl | rfl | rfl | rfl <;> cases same
  have asked : staggeredOptions.isSet "NXPE" = true ∧ staggeredOptions.whole "NXPE" 0 = 1 ∧
      staggeredOptions.isSet "paralleltransform" = false := by decide +kernel
  have settled : staggeredShape.settleSplit staggeredOptions 1 = .ok 1 := by
    simp only [GridShape.settleSplit, asked.1, asked.2.1]
    rfl
  refine ⟨_, Mesh.load_of_steps (asked_staggered.read silent) settled rfl rfl rfl rfl rfl rfl (Defaults.read_plain plain) rfl
    (transformName_unset asked.2.2), ?_, rfl, rfl, rfl⟩
  unfold Mesh.HasRoom
  dsimp only
  decide

theorem load_staggered : ∃ m, Mesh.load GridSource.empty staggeredOptions ⟨0, 1⟩ = .ok (m, []) ∧ m.HasRoom ∧
    m.shape = staggeredShape ∧ m.extents = ⟨6, 3, 4⟩ := by
  obtain ⟨m, loaded, room, shape, extents, -⟩ :=
    load_staggered_of_silent (fun _ _ => rfl : ∀ name ∈ _, (GridSource.empty : GridSource ℝ).hasVariable name = false)
  exact ⟨m, loaded, room, shape, extents⟩

/-- One at the first point of every z line and zero elsewhere. -/
noncomputable def ridge : Field ℝ :=
  { nx := 6, ny := 3, nz := 4, data := Array.ofFn fun n : Fin 72 => if n.val % 4 = 0 then 1 else 0, loc := .centre
    aligned := false
    data_size := by rw [Array.size_ofFn]; rfl }

theorem ridge_derivative_gap : ∃ m, Mesh.load GridSource.empty staggeredOptions ⟨0, 1⟩ = .ok (m, []) ∧
    ∃ d g e own whole rest gap,
      m.derivative .z .first ridge (.real .xlow) .c2 false = .ok d ∧ ridge.interpolate (.real .xlow) = .ok g ∧
      m.derivative .z .first g (.real .xlow) .c2 false = .ok e ∧
      m.derivative .z .first ridge (.real .centre) .c2 false = .ok own ∧
      m.derivative .z .first ridge (.real .centre) .c2 true = .ok whole ∧
      whole.sub own = .ok rest ∧ rest.interpolate (.real .xlow) = .ok gap ∧
      ∀ x y z, m.isInterior x y = true → 0 ≤ z → z < m.localNz → ∃ a b c, d.get x y z = .ok a ∧
        gap.get x y z = .ok b ∧ e.get x y z = .ok c ∧ c = a + b := by
  obtain ⟨m, loaded, room, shape, extents⟩ := load_staggered
  have made : m.kernel .z ⟨.first, false⟩ .c2 = .ok ⟨.c2, ⟨.first, false⟩, 1, true, .derivative Kernel.firstC2⟩ := rfl
  obtain ⟨d, g, e, own, whole, rest, gap, derived, moved, derived', atOwn, atWhole, taken, movedRest, interior, -⟩ :=
    off_axis_derivative_gap GridSource.empty staggeredOptions (by decide) loaded room (by rw [shape]; rfl)
      (show ridge.extents = m.extents from extents.symm) made rfl (by decide) (show Location.xlow ≠ Axis.z.low by decide)
  exact ⟨m, loaded, d, g, e, own, whole, rest, gap, derived, moved, derived', atOwn, atWhole, taken, movedRest, interior⟩

end HaloMesh
