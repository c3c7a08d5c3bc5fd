import HaloMesh.Proofs.FlowDerivatives

/-! Derivatives over two blocks that share interior points of one grid. Where the lines of the fields agree around the
shared points, so do the derivatives, and where one cannot be taken the other fails alike. -/

namespace HaloMesh

variable {α : Type}

namespace Outcome

variable {β β' γ γ' : Type} {R : β → β' → Prop} {S : γ → γ' → Prop}

/-- Both fail alike, or both have results, which are related. -/
inductive Both (R : β → β' → Prop) : Outcome β → Outcome β' → Prop where
  | ok {b : β} {b' : β'} (related : R b b') : Both R (.ok b) (.ok b')
  | failed (failure : Failure) : Both R (.error failure) (.error failure)

theorem Both.bind {r : Outcome β} {r' : Outcome β'} {next : β → Outcome γ} {next' : β' → Outcome γ'} (first : Both R r r')
    (later : ∀ b b', r = .ok b → R b b' → Both S (next b) (next' b')) : Both S (r >>= next) (r' >>= next') := by
  cases first with
  | ok related => exact later _ _ rfl related
  | failed failure => exact .failed failure

theorem Both.of_eq {r r' : Outcome β} (same : r = r') : Both Eq r r' := by
  subst same
  cases r with
  | ok b => exact .ok rfl
  | error failure => exact .failed failure

theorem Both.mono {R' : β → β' → Prop} {r : Outcome β} {r' : Outcome β'} (both : Both R r r')
    (weaker : ∀ b b', R b b' → R' b b') : Both R' r r' := by
  cases both with
  | ok related => exact .ok (weaker _ _ related)
  | failed failure => exact .failed failure

end Outcome

open Outcome (Both)

/-- A location that is asked for is the own one, or half a cell off along the axis. -/
def Placement.Along (place : Placement) (axis : Axis) (source : Location) : Prop :=
  ∀ target, place.orElse source = .real target →
    target = source ∨ (target = axis.low ∧ source = .centre) ∨ (target = .centre ∧ source = axis.low)

variable [Scalar α]

section Kernels

variable {k : Kernel α} {o : Offset} {line line' velocity velocity' : Int → α} {i i' : Int}

theorem Window.on_shifted {width : Nat} (near : ∀ j : Int, -width ≤ j → j ≤ width → line (i + j) = line' (i' + j)) :
    on line i o width = on line' i' o width := by
  rw [on_relative line, on_relative line']
  exact on_congr fun j low high => near j (by omega) (by omega)

theorem Kernel.slope_shifted (kind : Kind) (n : Nat)
    (near : ∀ j : Int, -k.width ≤ j → j ≤ k.width → line (i + j) = line' (i' + j))
    (whole : k.isSpectral = true → i = i' ∧ line = line') : k.slope kind o n line i = k.slope kind o n line' i' := by
  by_cases spectral : k.isSpectral = true
  · obtain ⟨rfl, rfl⟩ := whole spectral
    rfl
  · simp only [slope, if_neg spectral, Window.on_shifted near]

theorem Kernel.carry_shifted (near : ∀ j : Int, -k.width ≤ j → j ≤ k.width → line (i + j) = line' (i' + j))
    (carried : ∀ j : Int, -k.width ≤ j → j ≤ k.width → velocity (i + j) = velocity' (i' + j)) :
    k.carry o velocity line i = k.carry o velocity' line' i' := by
  have here : velocity i = velocity' i' := by simpa using carried 0 (by omega) (by omega)
  simp only [carry, Window.on_shifted near, Window.on_shifted carried, here]

end Kernels

namespace Mesh

variable {m m' : Mesh α} {axis : Axis} {kind : Kind} {k : Kernel α} {d d' e e' f f' v v' : Field α} {place : Placement}
  {method : Method} {inc : Bool}

/-- An interior point of the grid in the blocks of both. -/
def Shares (m m' : Mesh α) (x y x' y' : Int) : Prop :=
  m.isInterior x y = true ∧ m'.isInterior x' y' = true ∧ m.globalX x = m'.globalX x' ∧ m.globalY y = m'.globalY y'

/-- Results with the same value in every shared point. -/
def SameInterior (m m' : Mesh α) (d d' : Field α) : Prop :=
  ∀ x y x' y' z, m.Shares m' x y x' y' → 0 ≤ z → z < m.localNz → ∃ a, d.get x y z = .ok a ∧ d'.get x' y' z = .ok a

/-- Blocks of one grid, with some guard cells and the same default methods. -/
structure Kindred (m m' : Mesh α) : Prop where
  shape : m.shape = m'.shape
  defaults : m.defaults = m'.defaults
  guards : 1 ≤ m.shape.mxg ∧ 1 ≤ m.shape.myg
  points : m.localNz = m'.localNz

/-- Fields with the same values in all shared points. -/
structure SameValues (m m' : Mesh α) (f f' : Field α) : Prop where
  kindred : m.Kindred m'
  left : m.Holds f
  right : m'.Holds f'
  loc : f.loc = f'.loc
  aligned : f.aligned = f'.aligned
  values : ∀ x y x' y' z, m.Shares m' x y x' y' → 0 ≤ z → z < m.localNz → f.value x y z = f'.value x' y' z

/-- Fields with the same values on all lines through shared points: on the whole line along z, and elsewhere as far as
there are guard cells. -/
structure SameLines (m m' : Mesh α) (f f' : Field α) : Prop extends m.SameValues m' f f' where
  lines : ∀ axis x y x' y' z, m.Shares m' x y x' y' → 0 ≤ z → z < m.localNz → ∀ j,
    axis = .z ∨ -m.guards axis ≤ j ∧ j ≤ m.guards axis →
      f.along axis x y z (axis.coordinate x y z + j) = f'.along axis x' y' z (axis.coordinate x' y' z + j)

omit [Scalar α] in
theorem Kindred.axisSize (kindred : m.Kindred m') (holds : m.Holds f) (holds' : m'.Holds f') (axis : Axis) :
    m.axisSize axis = 1 ↔ m'.axisSize axis = 1 := by
  obtain ⟨shape, -, guards, points⟩ := kindred
  have left := holds.columns
  have right := holds'.columns
  have below := holds.rows
  have above := holds'.rows
  rw [← shape] at right above
  cases axis <;> simp only [Mesh.axisSize] <;> omega

omit [Scalar α] in
theorem Kindred.guards_eq (kindred : m.Kindred m') (axis : Axis) : m.guards axis = m'.guards axis := by
  obtain ⟨shape, -, -, points⟩ := kindred
  cases axis <;> simp only [Mesh.guards, shape, points]

theorem Kindred.kernel_eq (kindred : m.Kindred m') (axis : Axis) (family : Family) (method : Method) :
    m.kernel axis family method = m'.kernel axis family method := by
  simp only [kernel, kindred.defaults, kindred.guards_eq]

omit [Scalar α] in
theorem Kindred.plan_eq (kindred : m.Kindred m') (axis : Axis) (source : Location) (place : Placement) :
    m.plan axis source place = m'.plan axis source place := by simp only [plan, kindred.shape]

omit [Scalar α] in
theorem plan_along {source : Location} {p : DerivativePlan} (along : place.Along axis source)
    (planned : m.plan axis source place = .ok p) : p.inputTo = none ∧ p.resultTo = none := by
  have apart : axis.low ≠ .centre := by cases axis <;> decide
  cases found : place.orElse source with
  | inherit | shifted =>
    rw [plan, found] at planned
    cases planned
  | real target =>
    simp only [plan, found] at planned
    rcases along target found with rfl | ⟨rfl, rfl⟩ | ⟨rfl, rfl⟩
    · rw [if_pos rfl] at planned
      cases planned
      exact ⟨rfl, rfl⟩
    · rw [if_neg apart, if_pos rfl] at planned
      split at planned
      · cases planned
      · cases planned
        exact ⟨rfl, rfl⟩
    · rw [if_neg apart.symm, if_neg apart.symm, if_pos rfl] at planned
      split at planned
      · cases planned
      · cases planned
        exact ⟨rfl, rfl⟩

theorem evaluates_shared (same : m.SameValues m' f f') {x y x' y' z : Int} (shares : m.Shares m' x y x' y') (low : 0 ≤ z)
    (high : z < m.localNz) : (f.HasPoint x y z ∧ ∀ axis inc, m.Evaluates axis inc x y) ∧
      f'.HasPoint x' y' z ∧ ∀ axis inc, m'.Evaluates axis inc x' y' :=
  ⟨same.left.interior_point shares.1 low high, same.right.interior_point shares.2.1 low (same.kindred.points ▸ high)⟩

omit [Scalar α] in
theorem Kindred.flowPlan_eq (kindred : m.Kindred m') (velocity : v.loc = v'.loc) (field : f.loc = f'.loc) :
    m.flowPlan axis v f place = m'.flowPlan axis v' f' place := by simp only [flowPlan, kindred.shape, velocity, field]

namespace SameValues

/-- Results with the same values for fields that have the same. -/
theorem of_points (same : m.SameValues m' f f') (alike : Field.Alike f d) (alike' : Field.Alike f' d')
    (points : ∀ x y x' y' z, m.Shares m' x y x' y' → 0 ≤ z → z < m.localNz → d.value x y z = d'.value x' y' z) :
    m.SameValues m' d d' :=
  ⟨same.kindred, same.left.of_alike alike, same.right.of_alike alike', by rw [alike.loc, alike'.loc, same.loc],
    by rw [alike.aligned, alike'.aligned, same.aligned], points⟩

theorem interior (same : m.SameValues m' f f') : m.SameInterior m' f f' := by
  intro x y x' y' z shares low high
  obtain ⟨⟨has, -⟩, has', -⟩ := evaluates_shared same shares low high
  refine ⟨f.value x y z, Field.get_eq same.left.fits has, ?_⟩
  rw [same.values x y x' y' z shares low high]
  exact Field.get_eq same.right.fits has'

theorem depth (same : m.SameValues m' f f') : f.nz = f'.nz := by
  have left := same.left.sizes.2.2
  have right := same.right.sizes.2.2
  have points := same.kindred.points
  omega

theorem retag (same : m.SameValues m' f f') (loc : Location) : m.SameValues m' (f.retag loc) (f'.retag loc) :=
  ⟨same.kindred, same.left.retag loc, same.right.retag loc, rfl, same.aligned, same.values⟩

theorem zeroLike (same : m.SameValues m' f f') : m.SameValues m' f.zeroLike f'.zeroLike := by
  apply same.of_points f.alike_zeroLike f'.alike_zeroLike
  intro x y x' y' z shares low high
  obtain ⟨⟨has, -⟩, has', -⟩ := evaluates_shared same shares low high
  rw [Field.value_zeroLike same.left.fits has, Field.value_zeroLike same.right.fits has']

theorem combine (same : m.SameValues m' f f') (other : m.SameValues m' d d') (op : String) (h : α → α → α) :
    Both (m.SameValues m') (f.combine d op h) (f'.combine d' op h) := by
  have shapes {n : Mesh α} {g e : Field α} (first : n.Holds g) (second : n.Holds e) : e.extents = g.extents :=
    second.shaped.trans first.shaped.symm
  have checks {n : Mesh α} {g e : Field α} (first : n.Holds g) (second : n.Holds e) : g.checkCompatible e op =
      if g.loc ≠ e.loc then Outcome.raise (.locationsDiffer op g.loc e.loc)
      else if g.aligned ≠ e.aligned then Outcome.raise (.alignmentsDiffer op) else .ok () := by
    simp [Field.checkCompatible, Field.sameShape, shapes first second]
  have here := checks same.left other.left
  have there := checks same.right other.right
  rw [← same.loc, ← other.loc, ← same.aligned, ← other.aligned, ← here] at there
  cases compatible : f.checkCompatible d op with
  | error failure =>
    rw [Field.combine, Field.combine, there, compatible]
    exact .failed failure
  | ok _ =>
    obtain ⟨loc, aligned⟩ : f.loc = d.loc ∧ f.aligned = d.aligned := by
      rw [compatible] at here
      split at here
      · cases here
      next loc =>
        split at here
        · cases here
        next aligned => exact ⟨not_not.mp loc, not_not.mp aligned⟩
    have alike {n : Mesh α} {g e : Field α} (first : n.Holds g) (second : n.Holds e) (loc : g.loc = e.loc)
        (aligned : g.aligned = e.aligned) : Field.Alike g e := by
      obtain ⟨nx, ny, nz⟩ := Field.sizes_congr (shapes first second)
      refine ⟨nx, ny, nz, ?_, loc.symm, aligned.symm⟩
      rw [Field.size_of_fits first.fits, Field.size_of_fits second.fits, nx, ny, nz]
    obtain ⟨r, computed, alikeR, values⟩ :=
      Field.combine_alike same.left.fits (alike same.left other.left loc aligned) op h
    obtain ⟨r', computed', alikeR', values'⟩ := Field.combine_alike same.right.fits
      (alike same.right other.right (same.loc ▸ other.loc ▸ loc) (same.aligned ▸ other.aligned ▸ aligned)) op h
    rw [computed, computed']
    refine .ok (same.of_points alikeR alikeR' ?_)
    intro x y x' y' z shares low high
    obtain ⟨⟨has, -⟩, has', -⟩ := evaluates_shared same shares low high
    rw [values x y z has, values' x' y' z has', same.values x y x' y' z shares low high,
      other.values x y x' y' z shares low high]

end SameValues

namespace SameLines

/-- Within the reach of a kernel the lines through shared points agree. -/
theorem near (same : m.SameLines m' f f') {width : Nat} (reach : axis = .z ∨ (width : Int) ≤ m.guards axis)
    {x y x' y' z : Int} (shares : m.Shares m' x y x' y') (low : 0 ≤ z) (high : z < m.localNz) (j : Int)
    (below : -width ≤ j) (above : j ≤ width) :
    f.along axis x y z (axis.coordinate x y z + j) = f'.along axis x' y' z (axis.coordinate x' y' z + j) :=
  same.lines axis x y x' y' z shares low high j (reach.imp_right fun narrow => by omega)

/-- Differences are the same in shared points. -/
theorem differenced (same : m.SameLines m' f f') {staggered : Bool}
    (made : m.kernel axis ⟨kind, staggered⟩ method = .ok k) (plain : kind.isFlow = false) (o : Offset) (inc : Bool) :
    ∃ d d', m.differenced axis kind k o f inc = .ok d ∧ m'.differenced axis kind k o f' inc = .ok d' ∧
      m.SameValues m' d d' := by
  obtain ⟨-, along, reach⟩ := kernel_ok made
  obtain ⟨d, computed, alike, values⟩ := differenced_values same.left.bears made plain o inc
  obtain ⟨d', computed', alike', values'⟩ := differenced_values same.right.bears (same.kindred.kernel_eq .. ▸ made) plain o inc
  refine ⟨d, d', computed, computed', same.of_points alike alike' ?_⟩
  intro x y x' y' z shares low high
  obtain ⟨⟨has, evaluated⟩, has', evaluated'⟩ := evaluates_shared same.toSameValues shares low high
  rw [values x y z has, values' x' y' z has', if_pos (evaluated axis inc), if_pos (evaluated' axis inc), same.depth]
  apply Kernel.slope_shifted
  · exact same.near reach shares low high
  · intro spectral
    obtain rfl := along spectral
    refine ⟨rfl, funext fun j => ?_⟩
    have line := same.lines .z x y x' y' z shares low high (j - z) (.inl rfl)
    simpa [Axis.coordinate] using line

/-- Derivatives that move neither input nor result are the same in shared points, or fail alike. -/
theorem derivative (same : m.SameLines m' f f') (plain : kind.isFlow = false)
    (direct : ∀ p, m.plan axis f.loc place = .ok p → p.inputTo = none ∧ p.resultTo = none) :
    Both (m.SameValues m') (m.derivative axis kind f place method inc) (m'.derivative axis kind f' place method inc) := by
  have size := same.kindred.axisSize same.left same.right axis
  cases planned : m.plan axis f.loc place with
  | error failure =>
    have planned' : m'.plan axis f'.loc place = .error failure := by rw [← same.loc, ← same.kindred.plan_eq, planned]
    rw [Mesh.derivative, planned, Mesh.derivative, planned']
    exact .failed failure
  | ok p =>
    have planned' : m'.plan axis f'.loc place = .ok p := by rw [← same.loc, ← same.kindred.plan_eq, planned]
    by_cases single : m.axisSize axis = 1
    · rw [derivative_single planned single, derivative_single planned' (size.mp single)]
      exact .ok (same.zeroLike.retag p.output)
    · obtain ⟨input, result⟩ := direct p planned
      rw [derivative_bind planned single, derivative_bind planned' (mt size.mpr single)]
      apply Both.bind (Both.of_eq (same.kindred.kernel_eq ..))
      rintro k _ made rfl
      obtain ⟨d, d', computed, computed', values⟩ := same.differenced made plain p.offset inc
      simp only [input]
      change Both _ (m.differenced axis kind k p.offset f inc >>= settle p)
        (m'.differenced axis kind k p.offset f' inc >>= settle p)
      rw [computed, computed']
      change Both _ (settle p d) (settle p d')
      rw [settle_direct result, settle_direct result]
      cases p.staggered with
      | false => exact .ok values
      | true => exact .ok (values.retag p.evaluatedAt)

/-- Flow kernels give the same in shared points. -/
theorem applyFlow (velocity : m.SameLines m' v v') (same : m.SameLines m' f f') {staggered : Bool}
    (made : m.kernel axis ⟨kind, staggered⟩ method = .ok k) (flow : kind.isFlow = true) (whole : k.isSplit = false)
    (o : Offset) : ∃ d d', m.applyFlow axis k o v f = .ok d ∧ m'.applyFlow axis k o v' f' = .ok d' ∧
      m.SameValues m' d d' := by
  obtain ⟨-, -, reach⟩ := kernel_ok made
  obtain ⟨d, computed, alike, values⟩ := applyFlow_values same.left.bears (velocity.left.shaped.trans same.left.shaped.symm)
    velocity.left.fits made flow whole o
  obtain ⟨d', computed', alike', values'⟩ := applyFlow_values same.right.bears
    (velocity.right.shaped.trans same.right.shaped.symm) velocity.right.fits (same.kindred.kernel_eq .. ▸ made) flow whole o
  refine ⟨d, d', computed, computed', same.of_points alike alike' ?_⟩
  intro x y x' y' z shares low high
  obtain ⟨⟨has, evaluated⟩, has', evaluated'⟩ := evaluates_shared same.toSameValues shares low high
  rw [values x y z has, values' x' y' z has', if_pos (evaluated axis false), if_pos (evaluated' axis false)]
  exact Kernel.carry_shifted (same.near reach shares low high) (velocity.near reach shares low high)

/-- Flow derivatives, split ones too, are the same in shared points, or fail alike. -/
theorem flow (velocity : m.SameLines m' v v') (same : m.SameLines m' f f') (flow : kind.isFlow = true) :
    Both (m.SameValues m') (m.flow axis kind v f place method) (m'.flow axis kind v' f' place method) := by
  have size := same.kindred.axisSize same.left same.right axis
  rw [flow_bind (velocity.left.shaped.trans same.left.shaped.symm),
    flow_bind (velocity.right.shaped.trans same.right.shaped.symm)]
  apply Both.bind (Both.of_eq (same.kindred.flowPlan_eq velocity.loc same.loc))
  rintro plan _ planned rfl
  by_cases single : m.axisSize axis = 1
  · rw [if_pos single, if_pos (size.mp single)]
    exact .ok same.zeroLike
  · rw [if_neg single, if_neg (mt size.mpr single)]
    apply Both.bind (Both.of_eq (same.kindred.kernel_eq ..))
    rintro k _ made rfl
    cases split : k.isSplit with
    | false =>
      obtain ⟨d, d', computed, computed', values⟩ := velocity.applyFlow same made flow split plan.2
      simp only [Bool.false_eq_true, ↓reduceIte, computed, computed']
      exact .ok values
    | true =>
      simp only [↓reduceIte]
      apply Both.bind (Both.of_eq (same.kindred.kernel_eq ..))
      rintro upwind _ found rfl
      obtain ⟨d, d', computed, computed', advected⟩ := velocity.applyFlow same found rfl
        (Kernel.of?_upwind (kernel_ok found).1) plan.2
      rw [computed, computed', ← same.loc]
      obtain ⟨p, slopes, -, input, result, -⟩ := flowPlan_ok planned
      have direct (other : DerivativePlan) (found : m.plan axis v.loc (.real f.loc) = .ok other) :
          other.inputTo = none ∧ other.resultTo = none := by
        obtain rfl := Except.ok.inj (slopes.symm.trans found)
        exact ⟨input, result⟩
      apply Both.bind (velocity.derivative rfl direct)
      intro dv dv' _ slope
      apply Both.bind (same.combine slope "Mul" (· * ·))
      intro product product' _ multiplied
      exact advected.combine multiplied "Add" (· + ·)

end SameLines

end Mesh

end HaloMesh
