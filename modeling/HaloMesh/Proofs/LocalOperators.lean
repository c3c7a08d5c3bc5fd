import HaloMesh.Proofs.PeriodicGrid
import HaloMesh.Proofs.MetricGeometry
import HaloMesh.Operator.Calculus

/-! The operators of vector calculus on one rank. A rank that knows its coordinates talks to nobody for them, and the
values of their results at interior points are those of the same operators on functions of the whole grid. -/

namespace HaloMesh
open Transport Program

section Answers

variable {α β γ : Type} [Scalar α] {m : Mesh α} {c : Coordinates α}

/-- A rank with a mesh and with coordinates at the cell centres, on a grid that is aligned as it stands. -/
structure Rank.Knows (r : Rank α) (m : Mesh α) (c : Coordinates α) : Prop where
  mesh : r.mesh = m
  keeps : r.Keeps c
  identity : r.transform = some .identity ∨ r.transform = none ∧ transformName m.options ≠ "shifted"

/-- A computation that comes to its result without the other ranks. The rank may only add to what it knows. -/
def RankM.Answers (m : Mesh α) (c : Coordinates α) (p : RankM α β) (b : Outcome β) : Prop :=
  ∀ r : Rank α, r.Knows m c → ∃ r', Path (p.run.run r) [] (.finished (b, r')) ∧ r'.Knows m c

namespace RankM

variable {p : RankM α β} {next : β → RankM α γ} {b : β} {d : Outcome γ}

theorem Answers.bind (first : Answers m c p (.ok b)) (second : Answers m c (next b) d) : Answers m c (p >>= next) d := by
  intro r known
  obtain ⟨r', path, known'⟩ := first r known
  obtain ⟨r'', path', known''⟩ := second r' known'
  exact ⟨r'', bind_path path path', known''⟩

/-- What comes after a failure does not matter. -/
theorem Answers.failed {e : Failure} (first : Answers m c p (.error e)) : Answers m c (p >>= next) (.error e) := by
  intro r known
  obtain ⟨r', path, known'⟩ := first r known
  refine ⟨r', ?_, known'⟩
  rw [run_bind]
  exact path.bind_finished (.here _)

theorem answers_pure (b : β) : Answers m c (pure b) (.ok b) := fun r known => ⟨r, .here _, known⟩

theorem answers_ofOutcome {b : Outcome β} {outcome : Outcome β} (same : outcome = b) : Answers m c (ofOutcome outcome) b :=
  fun r known => ⟨r, same ▸ .here _, known⟩

theorem answers_mesh : Answers m c mesh (.ok m) := fun r known => ⟨r, known.mesh ▸ .here _, known⟩

theorem answers_coordinates : Answers m c (coordinatesAt (.real .centre)) (.ok c) := by
  intro r known
  have kept : Path ((knownCoordinates? .centre : RankM α (Option (Coordinates α))).run.run r) []
      (.finished (.ok (some c), r)) := by
    have found := known.keeps
    unfold Rank.Keeps at found
    change Path (.finished (Except.ok ((r.coordinates.find? fun e => e.1 = .centre).map Prod.snd), r)) [] _
    rw [found]
    exact .here _
  have loaded : Path ((loadCoordinates (.real .centre)).run.run r) [] (.finished (.ok c, r)) := by
    unfold loadCoordinates
    exact bind_path kept (.here _)
  exact ⟨r, loaded.bind_finished (.here _), known⟩

theorem answers_transform : Answers m c parallelTransform (.ok .identity) := by
  intro r known
  have state : Path ((get : RankM α (Rank α)).run.run r) [] (.finished (.ok r, r)) := .here _
  unfold parallelTransform
  rcases known.identity with chosen | ⟨none, plain⟩
  · refine ⟨r, bind_path state ?_, known⟩
    simp only [chosen]
    exact .here _
  · refine ⟨{ r with transform := some .identity }, bind_path state ?_, ⟨known.mesh, known.keeps, .inl rfl⟩⟩
    rw [← known.mesh] at plain
    simp only [none, if_neg plain]
    exact .here _

theorem answers_toAligned (f : Field α) : Answers m c (toAligned f) (.ok (f.setAligned true)) :=
  answers_transform.bind (answers_ofOutcome rfl)

theorem answers_fromAligned (f : Field α) : Answers m c (fromAligned f) (.ok (f.setAligned false)) :=
  answers_transform.bind (answers_ofOutcome rfl)

end RankM

end Answers

/-- A block holds all fields of its extents if it holds one of them. -/
theorem Mesh.Holds.of_extents {α : Type} {m : Mesh α} {f g : Field α} (holds : m.Holds f) (shaped : g.extents = m.extents) :
    m.Holds g :=
  { holds with
    fits := by
      obtain ⟨nx, ny, nz⟩ := Field.sizes_congr (shaped.trans holds.shaped.symm)
      unfold Field.Fits
      rw [nx, ny, nz]
      exact holds.fits
    shaped }

/-! Arithmetic of fields, point by point. -/

namespace Field

variable {f g : Field ℝ} {p : Axis → Int}

theorem combine_values (fits : f.Fits) (alike : Alike f g) (op : String) (h : ℝ → ℝ → ℝ) :
    ∃ r, f.combine g op h = .ok r ∧ Alike f r ∧ ∀ p, f.HasAt p → r.pointValue p = h (f.pointValue p) (g.pointValue p) := by
  obtain ⟨r, combined, like, values⟩ := combine_alike fits alike op h
  exact ⟨r, combined, like, fun p has => values _ _ _ has⟩

/-- A quotient by a metric quantity, which may be in another frame. -/
theorem dividedBy_values (fits : f.Fits) (shaped : g.extents = f.extents) (loc : f.loc = g.loc) :
    ∃ r, f.dividedBy g = .ok r ∧ Alike f r ∧ ∀ p, f.HasAt p → r.pointValue p = f.pointValue p / g.pointValue p := by
  obtain ⟨r, combined, alike, values⟩ := combine_values (f := f) (g := (g.retag f.loc).setAligned f.aligned) fits
    (.of_extents shaped rfl rfl) "Div" (· / ·)
  have same : f.sameShape g = true := decide_eq_true shaped.symm
  refine ⟨r, ?_, alike, values⟩
  rw [dividedBy, if_neg (by simp [same, loc])]
  obtain ⟨-, -, taken⟩ := Outcome.bind_eq_ok.mp combined
  exact taken

theorem scale_values (fits : f.Fits) (s : ℝ) :
    Alike f (f.scale s) ∧ ∀ p, f.HasAt p → (f.scale s).pointValue p = s * f.pointValue p := by
  refine ⟨⟨rfl, rfl, rfl, Array.size_map .., rfl, rfl⟩, fun p has => ?_⟩
  have found := getElem?_place fits has
  change ((f.data.map fun a => s * a)[(f.place (p .x) (p .y) (p .z)).toNat]?).getD _ = _
  rw [Array.getElem?_map, found]
  rfl

end Field

/-! Derivatives. -/

/-- The weights that the default first derivatives take along each axis, which reach no further than the guard cells. -/
def Mesh.Slopes (m : Mesh ℝ) (w : Axis → Int → ℝ) : Prop :=
  ∀ axis, (∀ j, w axis j ≠ 0 → m.Near axis j) ∧ ∀ inc f, m.Holds f →
    ∃ d, m.derivative axis .first f (.real f.loc) .standard inc = .ok d ∧ m.Weighted axis (w axis) inc f d

/-- The derivative of a function of the whole grid along an axis with these spacings. -/
noncomputable def slope (w h : Axis → Int → ℝ) (axis : Axis) (D : (Axis → Int) → ℝ) (P : Axis → Int) : ℝ :=
  slide (w axis) axis D P / h axis (P axis)

/-- The coordinates of a block, as functions of the whole grid: the spacing along every axis and the jacobian. -/
structure Coordinates.Measures (c : Coordinates ℝ) (m : Mesh ℝ) (aligned : Bool) (h : Axis → Int → ℝ)
    (J : (Axis → Int) → ℝ) : Prop where
  covers : c.Covers m aligned
  dx : m.Follows (fun P => h .x (P .x)) c.dx
  dy : m.Follows (fun P => h .y (P .y)) c.dy
  dz : ∀ t, h .z t = c.dz
  jacobian : m.Surrounds J c.jacobian

theorem Coordinates.Measures.follows_jacobian {m : Mesh ℝ} {c : Coordinates ℝ} {aligned : Bool} {h : Axis → Int → ℝ}
    {J : (Axis → Int) → ℝ} {f : Field ℝ} (measures : c.Measures m aligned h J) (holds : m.Holds f) :
    m.Follows J c.jacobian := by
  exact measures.jacobian.follows (holds.of_extents (measures.covers.shaped .jacobian (by decide)).1)

namespace RankM

variable {m : Mesh ℝ} {c : Coordinates ℝ} {aligned : Bool} {w h : Axis → Int → ℝ} {J D E : (Axis → Int) → ℝ}
  {f g : Field ℝ} (measures : c.Measures m aligned h J)

include measures

theorem answers_scaled (holds : m.Holds f) (here : f.loc = .centre) (follows : m.Follows D f) (axis : Axis) :
    ∃ d, Answers m c (scaled axis 1 f) (.ok d) ∧ Field.Alike f d ∧ m.Follows (fun P => D P / h axis (P axis)) d := by
  have has {p : Axis → Int} (inside : m.Inside p) : f.HasAt p := (holds.interior inside.interior inside.low inside.high).1
  have perSpacing {q : Quantity} (member : q ∈ Quantity.metric) : ∃ d, f.dividedBy (c.get q) = .ok d ∧ Field.Alike f d ∧
      ∀ p, f.HasAt p → d.pointValue p = f.pointValue p / (c.get q).pointValue p := by
    obtain ⟨extents, loc⟩ := measures.covers.shaped q member
    exact Field.dividedBy_values holds.fits (extents.trans holds.shaped.symm) (here.trans loc.symm)
  have located : Answers m c (coordinatesAt (.real f.loc)) (.ok c) := here ▸ answers_coordinates
  cases axis with
  | x =>
    obtain ⟨d, divided, alike, values⟩ := perSpacing (q := .dx) (by decide)
    refine ⟨d, located.bind (answers_ofOutcome (Outcome.bind_eq_ok.mpr ⟨d, divided, rfl⟩)), alike, fun p inside => ?_⟩
    rw [values p (has inside), follows p inside]
    exact congrArg _ (measures.dx p inside)
  | y =>
    obtain ⟨d, divided, alike, values⟩ := perSpacing (q := .dy) (by decide)
    refine ⟨d, located.bind (answers_ofOutcome (Outcome.bind_eq_ok.mpr ⟨d, divided, rfl⟩)), alike, fun p inside => ?_⟩
    rw [values p (has inside), follows p inside]
    exact congrArg _ (measures.dy p inside)
  | z =>
    refine ⟨_, located.bind (answers_pure _), (Field.scale_values holds.fits _).1, fun p inside => ?_⟩
    change _ = D (m.globalAt p) / h .z (m.globalAt p .z)
    rw [(Field.scale_values holds.fits _).2 p (has inside), follows p inside, measures.dz, Scalar.power, Scalar.power,
      Exact.ofNat_eq, Nat.cast_one]
    ring

variable (slopes : m.Slopes w)
include slopes

/-- A derivative at the cell centres is that of the function that the field is part of. -/
theorem answers_alongAt (holds : m.Holds f) (here : f.loc = .centre) (surrounds : m.Surrounds D f) (axis : Axis) :
    ∃ d, Answers m c (alongAt axis f (.real .centre)) (.ok d) ∧ Field.Alike f d ∧ m.Follows (slope w h axis D) d := by
  obtain ⟨near, computes⟩ := slopes axis
  -- along y a field is brought to the aligned frame and back, which only changes its tag
  by_cases across : (axis = .y && !f.aligned) = true
  · have flat : f.aligned = false := by simpa using (Bool.and_eq_true_iff.mp across).2
    have holds' : m.Holds (f.setAligned true) := holds.of_extents holds.shaped
    obtain ⟨r, computed, weighted⟩ := computes false (f.setAligned true) holds'
    have back : Field.Alike f (r.setAligned false) := ⟨weighted.alike.nx, weighted.alike.ny, weighted.alike.nz,
      weighted.alike.size, weighted.alike.loc, flat.symm⟩
    obtain ⟨d, scaled, alike, follows⟩ := answers_scaled measures (f := r.setAligned false) (D := slide (w axis) axis D)
      (holds.of_alike back) (back.loc.trans here) (fun p inside => weighted.follows holds' near surrounds p inside) axis
    rw [show (f.setAligned true).loc = .centre from here] at computed
    refine ⟨d, answers_mesh.bind ?_, back.trans alike, follows⟩
    dsimp only
    rw [if_pos across]
    exact (answers_toAligned f).bind ((answers_ofOutcome computed).bind ((answers_fromAligned r).bind scaled))
  · obtain ⟨r, computed, weighted⟩ := computes false f holds
    obtain ⟨d, scaled, alike, follows⟩ := answers_scaled measures (holds.of_alike weighted.alike)
      (weighted.alike.loc.trans here) (weighted.follows holds near surrounds) axis
    rw [here] at computed
    refine ⟨d, answers_mesh.bind ?_, weighted.alike.trans alike, follows⟩
    dsimp only
    rw [if_neg across]
    exact (answers_ofOutcome computed).bind scaled

omit slopes in
theorem answers_overJacobian (holds : m.Holds f) (here : f.loc = .centre) (follows : m.Follows D f) :
    ∃ d, Answers m c (overJacobian f (.real .centre)) (.ok d) ∧ Field.Alike f d ∧ m.Follows (fun P => D P / J P) d := by
  obtain ⟨extents, loc⟩ := measures.covers.shaped .jacobian (by decide)
  obtain ⟨d, divided, alike, values⟩ :=
    Field.dividedBy_values (g := c.jacobian) holds.fits (extents.trans holds.shaped.symm) (here.trans loc.symm)
  refine ⟨d, answers_coordinates.bind (answers_ofOutcome divided), alike, fun p inside => ?_⟩
  have has := (holds.interior inside.interior inside.low inside.high).1
  rw [values p has, follows p inside, measures.follows_jacobian holds p inside]

theorem answers_curlComponent (holds : m.Holds f) (here : f.loc = .centre) (like : Field.Alike f g)
    (first : m.Surrounds D f) (second : m.Surrounds E g) (axis axis' : Axis) :
    ∃ d, Answers m c (curlComponent axis f axis' g (.real .centre)) (.ok d) ∧ Field.Alike f d ∧
      m.Follows (fun P => (slope w h axis D P - slope w h axis' E P) / J P) d := by
  obtain ⟨a, computed, alike, follows⟩ := answers_alongAt measures slopes holds here first axis
  obtain ⟨b, computed', alike', follows'⟩ :=
    answers_alongAt measures slopes (holds.of_alike like) (like.loc.trans here) second axis'
  obtain ⟨r, taken, less, values⟩ := Field.combine_values (alike.fits holds.fits)
    (alike.symm.trans (like.trans alike')) "Sub" (· - ·)
  have whole := alike.trans less
  have difference : m.Follows (fun P => slope w h axis D P - slope w h axis' E P) r := by
    intro p inside
    have has := (holds.interior inside.interior inside.low inside.high).1
    rw [values p (alike.hasAt.mpr has), follows p inside, follows' p inside]
  obtain ⟨d, divided, last, follows⟩ :=
    answers_overJacobian measures (holds.of_alike whole) (whole.loc.trans here) difference
  exact ⟨d, computed.bind (computed'.bind ((answers_ofOutcome taken).bind divided)), whole.trans last, follows⟩

end RankM

/-- A vector over the block of a rank with all components at the cell centres, in one frame. -/
structure Vector3.Centred (v : Vector3 (Field ℝ)) (m : Mesh ℝ) (aligned : Bool) : Prop where
  shaped : ∀ a, (v.component a).extents = m.extents
  loc : ∀ a, (v.component a).loc = .centre
  aligned : ∀ a, (v.component a).aligned = aligned

namespace Vector3.Centred

variable {v u : Vector3 (Field ℝ)} {m : Mesh ℝ} {aligned : Bool}

theorem alike (centred : v.Centred m aligned) (a b : Axis) : Field.Alike (v.component a) (v.component b) :=
  .of_extents ((centred.shaped b).trans (centred.shaped a).symm) ((centred.loc b).trans (centred.loc a).symm)
    ((centred.aligned b).trans (centred.aligned a).symm)

theorem of_alike (centred : v.Centred m aligned) (alike : ∀ a, Field.Alike (v.component a) (u.component a)) :
    u.Centred m aligned :=
  ⟨fun a => (alike a).extents.trans (centred.shaped a), fun a => (alike a).loc.trans (centred.loc a),
    fun a => (alike a).aligned.trans (centred.aligned a)⟩

theorem location (centred : v.Centred m aligned) : v.location = .ok (.real .centre) := by
  have x := centred.loc .x
  have y := centred.loc .y
  have z := centred.loc .z
  simp only [component] at x y z
  rw [Vector3.location, x, y, z]
  rfl

end Vector3.Centred

/-- The axis that follows in the order of rotation. -/
def Axis.next : Axis → Axis
  | .x => .y
  | .y => .z
  | .z => .x

/-- The curl of a covariant vector, as functions of the whole grid. -/
noncomputable def curlOf (w h : Axis → Int → ℝ) (J : (Axis → Int) → ℝ) (V : Axis → (Axis → Int) → ℝ) (a : Axis)
    (P : Axis → Int) : ℝ :=
  (slope w h a.next (V a.next.next) P - slope w h a.next.next (V a.next) P) / J P

/-- The divergence of a contravariant vector. -/
noncomputable def divergenceOf (w h : Axis → Int → ℝ) (J : (Axis → Int) → ℝ) (W : Axis → (Axis → Int) → ℝ)
    (P : Axis → Int) : ℝ :=
  (slope w h .x (fun Q => J Q * W .x Q) P + slope w h .y (fun Q => J Q * W .y Q) P +
    slope w h .z (fun Q => J Q * W .z Q) P) / J P

namespace RankM

variable {m : Mesh ℝ} {c : Coordinates ℝ} {aligned aligned' : Bool} {w h : Axis → Int → ℝ} {J D : (Axis → Int) → ℝ}
  {V : Axis → (Axis → Int) → ℝ} {f : Field ℝ} {v : Vector3 (Field ℝ)} (measures : c.Measures m aligned h J)
include measures

theorem jacobian_mul (holds : m.Holds f) (here : f.loc = .centre) (frame : f.aligned = aligned)
    (surrounds : m.Surrounds D f) :
    ∃ d, c.jacobian.mul f = .ok d ∧ Field.Alike f d ∧ m.Surrounds (fun P => J P * D P) d := by
  obtain ⟨extents, loc⟩ := measures.covers.shaped .jacobian (by decide)
  have like : Field.Alike f c.jacobian := .of_extents (extents.trans holds.shaped.symm) (loc.trans here.symm)
    ((measures.covers.aligned .jacobian (by decide) (by decide)).trans frame.symm)
  obtain ⟨d, product, alike, values⟩ := Field.combine_values (like.fits holds.fits) like.symm "Mul" (· * ·)
  have whole := like.trans alike
  refine ⟨d, product, whole, fun p inside axis j near => ?_⟩
  have has : f.HasAt _ := holds.near inside near
  have first := measures.jacobian p inside axis j near
  have second := surrounds p inside axis j near
  rw [Field.lineAt, like.turned] at first
  rw [Field.lineAt, whole.turned, values _ (like.hasAt.mpr has), first]
  exact congrArg _ second

theorem jacobian_mul_misaligned (shaped : f.extents = m.extents) (here : f.loc = .centre) (other : f.aligned ≠ aligned) :
    c.jacobian.mul f = Outcome.raise (.alignmentsDiffer "Mul") := by
  obtain ⟨extents, loc⟩ := measures.covers.shaped .jacobian (by decide)
  have frame : c.jacobian.aligned = aligned := measures.covers.aligned .jacobian (by decide) (by decide)
  have same : c.jacobian.sameShape f = true := decide_eq_true (extents.trans shaped.symm)
  have place : c.jacobian.loc = f.loc := loc.trans here.symm
  have differ : c.jacobian.checkCompatible f "Mul" = Outcome.raise (.alignmentsDiffer "Mul") := by
    rw [Field.checkCompatible, if_neg (by simp [same]), if_neg (not_not.mpr place), if_pos (frame ▸ other.symm)]
  rw [Field.mul, Field.combine, differ]
  rfl

omit measures in
theorem answers_raised (contravariant : v.covariant = false) (here : v.x.loc = .centre) :
    Answers m c (raised v) (.ok v) := by
  have upper : Answers m c (toContravariant c v) (.ok v) := by
    rw [toContravariant, if_neg (by simp [contravariant])]
    exact answers_pure v
  unfold raised
  rw [here]
  exact answers_coordinates.bind upper

omit measures in
theorem answers_weighed (here : f.loc = .centre) {d : Outcome (Field ℝ)} (product : c.jacobian.mul f = d) :
    Answers m c (coordinatesAt (.real f.loc) >>= fun c => ofOutcome (c.jacobian.mul f)) d := by
  rw [here]
  exact answers_coordinates.bind (answers_ofOutcome product)

theorem answers_divergence_misaligned (contravariant : v.covariant = false) (centred : v.Centred m aligned')
    (other : aligned' ≠ aligned) :
    Answers m c (divergence v .inherit) (.error (.raised (.alignmentsDiffer "Mul"))) := by
  have refused := jacobian_mul_misaligned measures (centred.shaped .x) (centred.loc .x)
    (show v.x.aligned ≠ aligned from (centred.aligned .x).symm ▸ other)
  have dense : Answers m c (density v) (.error (.raised (.alignmentsDiffer "Mul"))) :=
    (answers_raised contravariant (centred.loc .x)).bind (answers_weighed (centred.loc .x) refused).failed
  exact dense.failed

variable (slopes : m.Slopes w) (holds : ∀ f : Field ℝ, f.extents = m.extents → m.Holds f)
include slopes holds

theorem answers_gradient (shaped : f.extents = m.extents) (here : f.loc = .centre) (surrounds : m.Surrounds D f) :
    ∃ u, Answers m c (gradient f .inherit) (.ok u) ∧ u.covariant = true ∧ u.Centred m f.aligned ∧
      ∀ a, m.Follows (slope w h a D) (u.component a) := by
  have along (a : Axis) := answers_alongAt measures slopes (holds f shaped) here surrounds a
  obtain ⟨x, computedX, alikeX, showsX⟩ := along .x
  obtain ⟨y, computedY, alikeY, showsY⟩ := along .y
  obtain ⟨z, computedZ, alikeZ, showsZ⟩ := along .z
  have alike (a : Axis) : Field.Alike f ((⟨x, y, z, true⟩ : Vector3 (Field ℝ)).component a) := by
    cases a
    · exact alikeX
    · exact alikeY
    · exact alikeZ
  refine ⟨⟨x, y, z, true⟩, ?_, rfl, ⟨fun a => (alike a).extents.trans shaped, fun a => (alike a).loc.trans here,
    fun a => (alike a).aligned⟩, fun a => ?_⟩
  · have own : Placement.inherit.orElse f.loc = .real .centre := by rw [here]; rfl
    change Answers m c (gradientAt f .inherit .inherit .inherit) _
    unfold gradientAt
    rw [own]
    exact computedX.bind (computedY.bind (computedZ.bind (answers_pure _)))
  · cases a
    · exact showsX
    · exact showsY
    · exact showsZ

theorem answers_curl (straight : m.shape.shiftXderivs = false) (covariant : v.covariant = true)
    (centred : v.Centred m aligned') (surrounds : ∀ a, m.Surrounds (V a) (v.component a)) :
    ∃ u, Answers m c (curl v .inherit) (.ok u) ∧ u.covariant = false ∧ u.Centred m aligned' ∧
      ∀ a, m.Follows (curlOf w h J V a) (u.component a) := by
  have along (a : Axis) := answers_curlComponent measures slopes (holds _ (centred.shaped a.next.next))
    (centred.loc a.next.next) (centred.alike a.next.next a.next) (surrounds a.next.next) (surrounds a.next) a.next
    a.next.next
  obtain ⟨x, computedX, alikeX, showsX⟩ := along .x
  obtain ⟨y, computedY, alikeY, showsY⟩ := along .y
  obtain ⟨z, computedZ, alikeZ, showsZ⟩ := along .z
  have alike (a : Axis) : Field.Alike (v.component a) ((⟨x, y, z, false⟩ : Vector3 (Field ℝ)).component a) := by
    cases a
    · exact (centred.alike .x .z).trans alikeX
    · exact (centred.alike .y .x).trans alikeY
    · exact (centred.alike .z .y).trans alikeZ
  refine ⟨⟨x, y, z, false⟩, ?_, rfl, centred.of_alike alike, fun a => ?_⟩
  · have here : v.x.loc = .centre := centred.loc .x
    have lowered : Answers m c (toCovariant c v) (.ok v) := by
      rw [toCovariant, if_pos covariant]
      exact answers_pure v
    have located : Answers m c (ofOutcome v.location) (.ok (.real .centre)) := answers_ofOutcome centred.location
    have whole : Answers m c (curlAt v (.real .centre) (.real .centre) (.real .centre)) (.ok ⟨x, y, z, false⟩) := by
      unfold curlAt
      rw [here]
      refine answers_coordinates.bind (lowered.bind (located.bind (computedX.bind (computedY.bind (computedZ.bind
        (answers_mesh.bind ?_))))))
      rw [if_neg (by simp [straight])]
      exact answers_pure _
    exact located.bind whole
  · cases a
    · exact showsX
    · exact showsY
    · exact showsZ

theorem answers_divergence (contravariant : v.covariant = false) (centred : v.Centred m aligned)
    (surrounds : ∀ a, m.Surrounds (V a) (v.component a)) :
    ∃ d, Answers m c (divergence v .inherit) (.ok d) ∧ d.extents = m.extents ∧ m.Follows (divergenceOf w h J V) d := by
  have weighed (a : Axis) :=
    jacobian_mul measures (holds _ (centred.shaped a)) (centred.loc a) (centred.aligned a) (surrounds a)
  choose e product alike dense using weighed
  have shaped (a : Axis) : (e a).extents = m.extents := (alike a).extents.trans (centred.shaped a)
  have here (a : Axis) : (e a).loc = .centre := (alike a).loc.trans (centred.loc a)
  have along (a : Axis) := answers_alongAt measures slopes (holds _ (shaped a)) (here a) (dense a) a
  choose d computed derived follows using along
  have like (a b : Axis) : Field.Alike (d a) (d b) :=
    ((derived a).symm.trans (alike a).symm).trans ((centred.alike a b).trans ((alike b).trans (derived b)))
  have fits := ((derived .x).fits (holds _ (shaped .x)).fits)
  obtain ⟨xy, added, alikeXY, valuesXY⟩ := Field.combine_values fits (like .x .y) "Add" (· + ·)
  obtain ⟨sum, added', alikeSum, valuesSum⟩ :=
    Field.combine_values (alikeXY.fits fits) (alikeXY.symm.trans (like .x .z)) "Add" (· + ·)
  have whole : Field.Alike (e .x) sum := (derived .x).trans (alikeXY.trans alikeSum)
  have total : m.Follows (fun P => slope w h .x (fun Q => J Q * V .x Q) P + slope w h .y (fun Q => J Q * V .y Q) P +
      slope w h .z (fun Q => J Q * V .z Q) P) sum := by
    intro p inside
    have has := ((holds _ (shaped .x)).interior inside.interior inside.low inside.high).1
    have hasX := (derived .x).hasAt.mpr has
    rw [valuesSum p (alikeXY.hasAt.mpr hasX), valuesXY p hasX, follows .x p inside, follows .y p inside, follows .z p inside]
  obtain ⟨r, divided, last, quotient⟩ :=
    answers_overJacobian measures ((holds _ (shaped .x)).of_alike whole) (whole.loc.trans (here .x)) total
  refine ⟨r, ?_, last.extents.trans (whole.extents.trans (shaped .x)), quotient⟩
  have densities : Answers m c (density v) (.ok ⟨e .x, e .y, e .z, v.covariant⟩) :=
    (answers_raised contravariant (centred.loc .x)).bind
      ((answers_weighed (centred.loc .x) (product .x)).bind ((answers_weighed (centred.loc .y) (product .y)).bind
        ((answers_weighed (centred.loc .z) (product .z)).bind (answers_pure _))))
  exact densities.bind ((computed .x).bind ((computed .y).bind ((answers_ofOutcome added).bind
    ((computed .z).bind ((answers_ofOutcome added').bind divided)))))

end RankM

end HaloMesh
