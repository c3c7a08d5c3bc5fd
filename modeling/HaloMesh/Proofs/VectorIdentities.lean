import HaloMesh.Proofs.LocalOperators

/-! The divergence of a curl and the curl of a gradient. Differences along different axes commute, and so do the sums of
neighbouring points that linear methods take, over exact arithmetic. On a grid without boundaries the two identities
hold to the last digit, whatever the decomposition, once the guard cells of what is differenced are filled. -/

namespace HaloMesh
open Transport Program

/-! Functions of the whole grid. -/

section Functions

variable {g : GridShape ℝ} {w h : Axis → Int → ℝ} {axis other : Axis} {J D E : (Axis → Int) → ℝ}
  {V : Axis → (Axis → Int) → ℝ}

theorem slope_sub (P : Axis → Int) :
    slope w h axis (fun Q => D Q - E Q) P = slope w h axis D P - slope w h axis E P := by
  rw [slope, slide_sub, sub_div, slope, slope]

theorem slope_comm (D : (Axis → Int) → ℝ) (axis other : Axis) :
    slope w h axis (slope w h other D) = slope w h other (slope w h axis D) := by
  by_cases same : axis = other
  · rw [same]
  · have constant {a b : Axis} (across : a ≠ b) (E : (Axis → Int) → ℝ) (P : Axis → Int) :
        slide (w a) a (fun Q => E Q / h b (Q b)) P = slide (w a) a E P / h b (P b) := by
      rw [← slide_div]
      simp only [slide, Function.update_of_ne across.symm]
    funext P
    change slide (w axis) axis (fun Q => slide (w other) other D Q / h other (Q other)) P / h axis (P axis) =
      slide (w other) other (fun Q => slide (w axis) axis D Q / h axis (Q axis)) P / h other (P other)
    rw [constant same, constant (Ne.symm same), slide_comm same, div_right_comm]

theorem GridShape.Repeats.slope (repeats : g.Repeats D) (even : ∀ axis t, h axis (g.fold axis t) = h axis t) :
    g.Repeats (slope w h axis D) := by
  intro P
  rw [HaloMesh.slope, HaloMesh.slope, repeats.slide P, GridShape.foldPoint, even]

theorem GridShape.Repeats.curlOf (repeats : ∀ a, g.Repeats (V a)) (jacobian : g.Repeats J)
    (even : ∀ axis t, h axis (g.fold axis t) = h axis t) (a : Axis) : g.Repeats (curlOf w h J V a) := by
  intro P
  have along (b c : Axis) : HaloMesh.slope w h b (V c) (g.foldPoint P) = HaloMesh.slope w h b (V c) P :=
    (repeats c).slope even P
  simp only [HaloMesh.curlOf, along, jacobian P]

theorem divergenceOf_curlOf (nonzero : ∀ P, J P ≠ 0) (P : Axis → Int) : divergenceOf w h J (curlOf w h J V) P = 0 := by
  have dense (a : Axis) : (fun Q => J Q * curlOf w h J V a Q) =
      fun Q => slope w h a.next (V a.next.next) Q - slope w h a.next.next (V a.next) Q := by
    funext Q
    exact mul_div_cancel₀ _ (nonzero Q)
  -- every second derivative appears twice, with opposite signs
  have cancel : slope w h .x (slope w h .y (V .z)) P - slope w h .x (slope w h .z (V .y)) P +
      (slope w h .y (slope w h .z (V .x)) P - slope w h .y (slope w h .x (V .z)) P) +
      (slope w h .z (slope w h .x (V .y)) P - slope w h .z (slope w h .y (V .x)) P) = 0 := by
    rw [slope_comm (V .z) .x .y, slope_comm (V .y) .x .z, slope_comm (V .x) .y .z]
    ring
  rw [divergenceOf, dense, dense, dense, slope_sub, slope_sub, slope_sub]
  simp only [Axis.next]
  rw [cancel, zero_div]

theorem curlOf_gradient (a : Axis) (P : Axis → Int) : curlOf w h J (fun b => slope w h b D) a P = 0 := by
  rw [curlOf, slope_comm D a.next a.next.next, sub_self, zero_div]

end Functions

/-! All ranks together. -/

namespace RankM

variable {α : Type} [Scalar α]

/-- The curl of a vector with the guard cells filled, first those of the vector and then those of the curl. The
coordinates come from the geometry of a metric. -/
def communicatedCurl (metric : Coordinates α) (v : Vector3 (Field α)) : RankM α (Vector3 (Field α)) := do
  let _ ← computeGeometry keepCoordinates metric
  let v ← communicatedVector v
  let u ← curl v .inherit
  communicatedVector u

def curlDivergence (metric : Coordinates α) (v : Vector3 (Field α)) : RankM α (Field α) := do
  let u ← communicatedCurl metric v
  divergence u .inherit

def gradientCurl (metric : Coordinates α) (f : Field α) : RankM α (Vector3 (Field α)) := do
  let _ ← computeGeometry keepCoordinates metric
  let f ← communicatedField f
  let u ← gradient f .inherit
  let u ← communicatedVector u
  curl u .inherit

end RankM

/-- A jacobian that passes the check and does not vary along z vanishes nowhere. -/
theorem Coordinates.jacobian_ne_zero {c : Coordinates ℝ} {m : Mesh ℝ} (passed : c.check m = .ok ())
    (level : c.jacobian.ConstantAlong .z) (holds : m.Holds c.jacobian) {p : Axis → Int} (within : m.Inside p) :
    c.jacobian.pointValue p ≠ 0 := by
  obtain ⟨interior, low, high⟩ := within
  have has := (holds.interior interior low high).1
  have bottom : m.Inside (Function.update p .z 0) := ⟨interior, le_refl _, Int.lt_of_le_of_lt low high⟩
  have has' := (holds.interior bottom.interior bottom.low bottom.high).1
  have found : c.jacobian.get (p .x) (p .y) 0 = .ok (c.jacobian.value (p .x) (p .y) 0) := Field.get_eq holds.fits has'
  have sound := Coordinates.defect?_jacobian
    (Coordinates.sound_of_check passed (q := .jacobian) (by decide) interior found)
  have flat := level p has 0 (.inl rfl)
  rw [Field.lineAt, Field.turned, if_pos rfl, Int.zero_emod] at flat
  rw [← flat]
  have differs : decide (c.jacobian.value (p .x) (p .y) 0 = @OfNat.ofNat ℝ 0 (Scalar.instOfNatScalar 0)) = false := sound
  rw [Exact.zero_eq] at differs
  exact of_decide_eq_false differs

/-- The parts of one metric on all ranks. It passes the check, which looks at one plane, its jacobian vanishes nowhere, and
its spacings vary along their own axis only. -/
structure SharedMetric (count : Nat) (meshes : Nat → Mesh ℝ) (aligned : Bool) (metric : Nat → Coordinates ℝ) : Prop where
  covers : ∀ i < count, (metric i).Covers (meshes i) aligned
  passed : ∀ i < count, (metric i).check (meshes i) = .ok ()
  nonzero : ∀ i < count, ∀ p, (meshes i).Inside p → (metric i).jacobian.pointValue p ≠ 0
  columns : ∃ dx : Int → ℝ, ∀ i < count, (meshes i).Follows (fun P => dx (P .x)) (metric i).dx
  rows : ∃ dy : Int → ℝ, ∀ i < count, (meshes i).Follows (fun P => dy (P .y)) (metric i).dy
  depth : ∃ dz : ℝ, ∀ i < count, (metric i).dz = dz

/-- The coordinates of all ranks, and the weights of their derivatives, as functions of a grid without boundaries. -/
structure Surveyed (l : Layout ℝ) (meshes : Nat → Mesh ℝ) (coordinates : Nat → Coordinates ℝ) (aligned : Bool)
    (w h : Axis → Int → ℝ) (J : (Axis → Int) → ℝ) : Prop where
  measures : ∀ i < l.count, (coordinates i).Measures (meshes i) aligned h J
  slopes : ∀ i < l.count, (meshes i).Slopes w
  even : ∀ axis t, h axis (l.shape.fold axis t) = h axis t
  repeats : l.shape.Repeats J
  nonzero : ∀ P, J P ≠ 0

/-- Blocks of one grid whose default methods are linear weight their points in one way. -/
theorem exists_slopes {count : Nat} {meshes : Nat → Mesh ℝ} (some_ : 0 < count)
    (kindred : ∀ i < count, (meshes 0).Kindred (meshes i)) {f : Nat → Field ℝ} (holds : ∀ i < count, (meshes i).Holds (f i))
    (linear : ∀ axis, ∃ k, (meshes 0).kernel axis ⟨.first, false⟩ .standard = .ok k ∧ k.isLinear = true) :
    ∃ w, ∀ i < count, (meshes i).Slopes w := by
  have each (axis : Axis) : ∃ w : Int → ℝ, ∀ i < count, (∀ j, w j ≠ 0 → (meshes i).Near axis j) ∧
      ∀ inc f, (meshes i).Holds f → ∃ d, (meshes i).derivative axis .first f (.real f.loc) .standard inc = .ok d ∧
        (meshes i).Weighted axis w inc f d := by
    obtain ⟨k, made, line⟩ := linear axis
    obtain ⟨own, -, reach⟩ := Mesh.kernel_ok made
    by_cases single : (meshes 0).axisSize axis = 1
    · refine ⟨fun _ => 0, fun i within => ⟨fun _ counts => absurd rfl counts, fun inc f held => ?_⟩⟩
      exact Mesh.weighted_single (((kindred i within).axisSize (holds 0 some_) (holds i within) axis).mp single) held .standard
        inc
    · obtain ⟨w, near, weighted⟩ := Mesh.weighted_common axis own line (meshes 0).localNz.toNat
      refine ⟨w, fun i within => ⟨fun j counts => ?_, fun inc f held => ?_⟩⟩
      · obtain ⟨low, high⟩ := near j counts
        rw [Mesh.Near, ← (kindred i within).guards_eq]
        exact reach.imp_right fun most => by omega
      · refine weighted (meshes i) .standard ?_ ?_ ?_ inc f held
        · rw [← (kindred i within).kernel_eq]
          exact made
        · have points := (kindred i within).points
          have deep := (holds 0 some_).points
          omega
        · exact mt ((kindred i within).axisSize (holds 0 some_) (holds i within) axis).mpr single
  choose w sums using each
  exact ⟨w, fun i within axis => sums axis i within⟩

namespace Together

/-- What every rank finds on its own all ranks find together. -/
theorem answered {α β : Type} [Scalar α] {l : Layout α} {meshes : Nat → Mesh α} {coordinates : Nat → Coordinates α}
    {p : Nat → RankM α β} {b : Nat → Outcome β} {before : Nat → Rank α}
    (known : ∀ i < l.count, (before i).Knows (meshes i) (coordinates i))
    (answers : ∀ i < l.count, RankM.Answers (meshes i) (coordinates i) (p i) (b i)) :
    ∃ after : Nat → Rank α, Together l meshes p before (fun i => (b i, after i)) ∧
      ∀ i < l.count, (after i).Knows (meshes i) (coordinates i) := by
  have : Nonempty (Rank α) := ⟨before 0⟩
  choose! after path knows using fun i (inside : i < l.count) => answers i inside (before i) (known i inside)
  exact ⟨after, alone path, knows⟩

variable {l : Layout ℝ} {meshes : Nat → Mesh ℝ} {before : Nat → Rank ℝ}
  (given : ∀ i < l.count, l.Assigns i (meshes i)) (room : ∀ i < l.count, (meshes i).HasRoom)
  (periodic : l.shape.periodicX = true) (closed : l.shape.topology = .rectangular l.shape.ny true)
  (straight : l.shape.twistShift = false)
include given room periodic closed straight

theorem surveyed {metric : Nat → Coordinates ℝ} {aligned : Bool} (shared : SharedMetric l.count meshes aligned metric)
    (kernels : ∀ i < l.count, ∀ axis, ∃ k, (meshes i).kernel axis ⟨.first, false⟩ .standard = .ok k)
    {w : Axis → Int → ℝ} (slopes : ∀ i < l.count, (meshes i).Slopes w) (own : ∀ i < l.count, (before i).mesh = meshes i)
    (identity : ∀ i < l.count, (before i).transform = some .identity ∨
      (before i).transform = none ∧ transformName (meshes i).options ≠ "shifted") :
    ∃ (coordinates : Nat → Coordinates ℝ) (ranks : Nat → Rank ℝ) (h : Axis → Int → ℝ) (J : (Axis → Int) → ℝ),
      Together l meshes (fun i => RankM.computeGeometry RankM.keepCoordinates (metric i)) before
        (fun i => (.ok (coordinates i), ranks i)) ∧
      (∀ i < l.count, (ranks i).Knows (meshes i) (coordinates i)) ∧ Surveyed l meshes coordinates aligned w h J := by
  have some_ : 0 < l.count := Nat.mul_pos l.columns.positive l.rows.positive
  obtain ⟨covers, passed, nonzero, ⟨dx, widths⟩, ⟨dy, heights⟩, dz, depths⟩ := shared
  have shaped {q : Quantity} (member : q ∈ Quantity.metric) (i : Nat) (inside : i < l.count) :=
    ((covers i inside).shaped q member).1
  obtain ⟨coordinates, ranks, together, known, kept, filled⟩ := computeGeometry given room own covers passed kernels
  obtain ⟨J, repeats, followed⟩ := Layout.exists_followed given room some_ fun i => (metric i).jacobian
  have surrounds {q : Quantity} (member : q ∈ Quantity.metric) {D : (Axis → Int) → ℝ} (again : l.shape.Repeats D)
      (followed : ∀ i < l.count, (meshes i).Follows D ((metric i).get q)) (i : Nat) (inside : i < l.count) :
      (meshes i).Surrounds D ((coordinates i).get q) :=
    (filled q member).surrounds given room (shaped member) periodic closed straight again followed inside
  let h : Axis → Int → ℝ
    | .x, t => dx (l.shape.fold .x t)
    | .y, t => dy (l.shape.fold .y t)
    | .z, _ => dz
  have even (axis : Axis) (t : Int) : h axis (l.shape.fold axis t) = h axis t := by
    cases axis <;> simp only [h, GridShape.fold_fold]
  have spacing {q : Quantity} (member : q ∈ Quantity.metric) (axis : Axis)
      (follows : ∀ i < l.count, (meshes i).Follows (fun P => h axis (P axis)) ((metric i).get q)) (i : Nat)
      (inside : i < l.count) : (meshes i).Follows (fun P => h axis (P axis)) ((coordinates i).get q) := by
    have holds := Layout.holds (given i inside) (room i inside) (((kept i inside).1.shaped q member).1)
    exact (surrounds member (fun P => even axis (P axis)) follows i inside).follows holds
  have solid (P : Axis → Int) : J P ≠ 0 := by
    obtain ⟨i, inside, p, within, place⟩ := Layout.exists_inside given room some_ P
    rw [← repeats, ← place, ← followed i inside p within]
    exact nonzero i inside p within
  refine ⟨coordinates, ranks, h, J, together, fun i inside => ?_, ⟨fun i inside => ?_, slopes, even, repeats, solid⟩⟩
  · obtain ⟨same, transform, keeps⟩ := known i inside
    exact ⟨same, keeps, transform ▸ identity i inside⟩
  · refine ⟨(kept i inside).1, ?_, ?_, fun t => ?_, surrounds (q := .jacobian) (by decide) repeats followed i inside⟩
    · refine spacing (q := .dx) (by decide) .x (fun j within p there => ?_) i inside
      rw [show (metric j).get .dx = (metric j).dx from rfl, widths j within p there]
      exact congrArg dx (congrFun (there.fold given room within) .x).symm
    · refine spacing (q := .dy) (by decide) .y (fun j within p there => ?_) i inside
      rw [show (metric j).get .dy = (metric j).dy from rfl, heights j within p there]
      exact congrArg dy (congrFun (there.fold given room within) .y).symm
    · exact ((kept i inside).2.trans (depths i inside)).symm

/-- A vector whose components follow functions of the grid has them around every interior point once it is communicated. -/
theorem surroundedVector {coordinates : Nat → Coordinates ℝ} (known : ∀ i < l.count, (before i).Knows (meshes i) (coordinates i))
    {v : Nat → Vector3 (Field ℝ)} {frame : Nat → Bool} (centred : ∀ i < l.count, (v i).Centred (meshes i) (frame i))
    {V : Axis → (Axis → Int) → ℝ} (repeats : ∀ a, l.shape.Repeats (V a))
    (followed : ∀ a, ∀ i < l.count, (meshes i).Follows (V a) ((v i).component a)) :
    ∃ (after : Nat → Vector3 (Field ℝ)) (ranks : Nat → Rank ℝ),
      Together l meshes (fun i => RankM.communicatedVector (v i)) before (fun i => (.ok (after i), ranks i)) ∧
      (∀ i < l.count, (ranks i).Knows (meshes i) (coordinates i)) ∧
      ∀ i < l.count, (after i).covariant = (v i).covariant ∧ (after i).Centred (meshes i) (frame i) ∧
        ∀ a, (meshes i).Surrounds (V a) ((after i).component a) := by
  have shaped (i : Nat) (inside : i < l.count) (a : Axis) := (centred i inside).shaped a
  obtain ⟨after, stores, together, kind, filled⟩ :=
    communicatedVector given room (fun i inside => (known i inside).mesh) shaped
  refine ⟨after, _, together, fun i inside => ⟨(known i inside).mesh, (known i inside).keeps, (known i inside).identity⟩,
    fun i inside => ⟨kind i, (centred i inside).of_alike fun a => (filled a).alike i inside, fun a => ?_⟩⟩
  exact (filled a).surrounds given room (fun j within => shaped j within a) periodic closed straight (repeats a) (followed a)
    inside

/-- The curl of a vector surrounds every interior point once it is communicated. -/
theorem communicatedCurl {metric : Nat → Coordinates ℝ} {aligned : Bool} (shared : SharedMetric l.count meshes aligned metric)
    (kernels : ∀ i < l.count, ∀ axis, ∃ k, (meshes i).kernel axis ⟨.first, false⟩ .standard = .ok k)
    {w : Axis → Int → ℝ} (slopes : ∀ i < l.count, (meshes i).Slopes w) (own : ∀ i < l.count, (before i).mesh = meshes i)
    (identity : ∀ i < l.count, (before i).transform = some .identity ∨
      (before i).transform = none ∧ transformName (meshes i).options ≠ "shifted")
    (plain : l.shape.shiftXderivs = false) {v : Nat → Vector3 (Field ℝ)} {frame : Nat → Bool}
    (covariant : ∀ i < l.count, (v i).covariant = true) (centred : ∀ i < l.count, (v i).Centred (meshes i) (frame i)) :
    ∃ (coordinates : Nat → Coordinates ℝ) (u : Nat → Vector3 (Field ℝ)) (ranks : Nat → Rank ℝ) (h : Axis → Int → ℝ)
      (J : (Axis → Int) → ℝ) (V : Axis → (Axis → Int) → ℝ),
      Together l meshes (fun i => RankM.communicatedCurl (metric i) (v i)) before (fun i => (.ok (u i), ranks i)) ∧
      (∀ i < l.count, (ranks i).Knows (meshes i) (coordinates i)) ∧ Surveyed l meshes coordinates aligned w h J ∧
      ∀ i < l.count, (u i).covariant = false ∧ (u i).Centred (meshes i) (frame i) ∧
        ∀ a, (meshes i).Surrounds (curlOf w h J V a) ((u i).component a) := by
  have some_ : 0 < l.count := Nat.mul_pos l.columns.positive l.rows.positive
  obtain ⟨coordinates, ranks, h, J, geometry, known, surveyed⟩ :=
    surveyed given room periodic closed straight shared kernels slopes own identity
  choose V repeats followed using fun a => Layout.exists_followed given room some_ fun i => (v i).component a
  obtain ⟨v', ranks', sent, known', surrounded⟩ :=
    surroundedVector given room periodic closed straight known centred repeats followed
  have curls (i : Nat) (inside : i < l.count) : ∃ u,
      RankM.Answers (meshes i) (coordinates i) (RankM.curl (v' i) .inherit) (.ok u) ∧ u.covariant = false ∧
        u.Centred (meshes i) (frame i) ∧ ∀ a, (meshes i).Follows (curlOf w h J V a) (u.component a) := by
    obtain ⟨kind, centred', surrounds⟩ := surrounded i inside
    exact RankM.answers_curl (surveyed.measures i inside) (slopes i inside)
      (fun f shaped => Layout.holds (given i inside) (room i inside) shaped)
      (by rw [Layout.shape_eq (given i inside)]; exact plain) (kind.trans (covariant i inside)) centred' surrounds
  have : Nonempty (Vector3 (Field ℝ)) := ⟨v 0⟩
  choose! u computed contravariant centred'' follows using curls
  obtain ⟨ranks'', curled, known''⟩ := answered known' computed
  obtain ⟨u', ranks''', sent', known''', surrounded'⟩ := surroundedVector given room periodic closed straight known''
    centred'' (fun a => GridShape.Repeats.curlOf repeats surveyed.repeats surveyed.even a)
    fun a i inside => follows i inside a
  refine ⟨coordinates, u', ranks''', h, J, V, geometry.bind (sent.bind (curled.bind sent')), known''', surveyed,
    fun i inside => ?_⟩
  obtain ⟨kind, centred', surrounds⟩ := surrounded' i inside
  exact ⟨kind.trans (contravariant i inside), centred', surrounds⟩

end Together

theorem Mesh.Follows.get {m : Mesh ℝ} {f : Field ℝ} {D : (Axis → Int) → ℝ} (follows : m.Follows D f) (holds : m.Holds f)
    {x y z : Int} (interior : m.isInterior x y = true) (low : 0 ≤ z) (high : z < m.localNz) :
    f.get x y z = .ok (D (m.globalAt fun axis => axis.coordinate x y z)) := by
  rw [Field.get_eq holds.fits (holds.interior_point interior low high).1]
  exact congrArg _ (follows (fun axis => axis.coordinate x y z) ⟨interior, low, high⟩)

/-- Ranks that have loaded a grid without boundaries and without shear, with linear methods for first derivatives, and
that share a metric. -/
structure PeriodicWorld (source : GridSource ℝ) (options : Options ℝ) (count : Nat) (meshes : Nat → Mesh ℝ)
    (ranks : Nat → Rank ℝ) (aligned : Bool) (metric : Nat → Coordinates ℝ) : Prop where
  loaded : ∀ i < count, ∃ warnings, Mesh.load source options ⟨i, count⟩ = .ok (meshes i, warnings)
  room : ∀ i < count, (meshes i).HasRoom
  periodic : ∀ i < count, (meshes i).shape.periodicX = true
  closed : ∀ i < count, (meshes i).shape.topology = .rectangular (meshes i).shape.ny true
  straight : ∀ i < count, (meshes i).shape.twistShift = false ∧ (meshes i).shape.shiftXderivs = false
  linear : ∀ i < count, ∀ axis, ∃ k, (meshes i).kernel axis ⟨.first, false⟩ .standard = .ok k ∧ k.isLinear = true
  own : ∀ i < count, (ranks i).mesh = meshes i
  identity : ∀ i < count, (ranks i).transform = some .identity ∨
    (ranks i).transform = none ∧ transformName (meshes i).options ≠ "shifted"
  shared : SharedMetric count meshes aligned metric

namespace PeriodicWorld

variable {source : GridSource ℝ} {options : Options ℝ} {count : Nat} {meshes : Nat → Mesh ℝ} {ranks : Nat → Rank ℝ}
  {aligned : Bool} {metric : Nat → Coordinates ℝ} (world : PeriodicWorld source options count meshes ranks aligned metric)
include world

theorem layout (some_ : 0 < count) : ∃ l : Layout ℝ, l.count = count ∧ (∀ i < count, l.Assigns i (meshes i)) ∧
    l.shape.periodicX = true ∧ l.shape.topology = .rectangular l.shape.ny true ∧ l.shape.twistShift = false ∧
    l.shape.shiftXderivs = false := by
  obtain ⟨l, same, given⟩ := Layout.of_world some_ world.loaded
  have shape := Layout.shape_eq (given 0 some_)
  refine ⟨l, same, given, ?_⟩
  rw [← shape]
  exact ⟨world.periodic 0 some_, world.closed 0 some_, world.straight 0 some_⟩

theorem kindred (i : Nat) (inside : i < count) : (meshes 0).Kindred (meshes i) := by
  obtain ⟨_, loads⟩ := world.loaded 0 (by omega)
  obtain ⟨_, loads'⟩ := world.loaded i inside
  obtain ⟨⟨_, read⟩, ⟨_, chosen⟩, -, points⟩ := Mesh.load_reads loads
  obtain ⟨⟨_, read'⟩, ⟨_, chosen'⟩, -, points'⟩ := Mesh.load_reads loads'
  have shape : (meshes 0).shape = (meshes i).shape := (Prod.mk.inj (Except.ok.inj (read.symm.trans read'))).1
  have defaults : (meshes 0).defaults = (meshes i).defaults := (Prod.mk.inj (Except.ok.inj (chosen.symm.trans chosen'))).1
  exact ⟨shape, defaults, Mesh.load_guards loads, by rw [points, points', shape]⟩

theorem slopes {l : Layout ℝ} (same : l.count = count) (given : ∀ i < count, l.Assigns i (meshes i)) (some_ : 0 < count) :
    ∃ w, ∀ i < l.count, (meshes i).Slopes w := by
  rw [same]
  exact exists_slopes some_ world.kindred (f := fun i => (metric i).dx)
    (fun i inside => Layout.holds (given i inside) (world.room i inside) ((world.shared.covers i inside).shaped .dx (by decide)).1)
    (world.linear 0 some_)

theorem kernels (i : Nat) (inside : i < count) (axis : Axis) :
    ∃ k, (meshes i).kernel axis ⟨.first, false⟩ .standard = .ok k := by
  obtain ⟨k, made, -⟩ := world.linear i inside axis
  exact ⟨k, made⟩

theorem curlDivergence {v : Nat → Vector3 (Field ℝ)} (covariant : ∀ i < count, (v i).covariant = true)
    (centred : ∀ i < count, (v i).Centred (meshes i) aligned) :
    ∃ (d : Nat → Field ℝ) (after : Nat → Rank ℝ),
      EndsIn (together count ranks fun i => RankM.curlDivergence (metric i) (v i)) (fun i => (.ok (d i), after i)) ∧
      ∀ i < count, ∀ x y z, (meshes i).isInterior x y = true → 0 ≤ z → z < (meshes i).localNz →
        (d i).get x y z = .ok 0 := by
  rcases Nat.eq_zero_or_pos count with rfl | some_
  · exact ⟨fun i => (metric i).dx, ranks, endsIn_empty _ rfl rfl, fun i inside => absurd inside (Nat.not_lt_zero i)⟩
  obtain ⟨l, rfl, given, periodic, closed, straight, plain⟩ := world.layout some_
  obtain ⟨w, slopes⟩ := world.slopes rfl given some_
  obtain ⟨coordinates, u, middle, h, J, V, curled, known, surveyed, curls⟩ := Together.communicatedCurl given world.room
    periodic closed straight world.shared world.kernels slopes world.own world.identity plain covariant centred
  have each (i : Nat) (inside : i < l.count) : ∃ d,
      RankM.Answers (meshes i) (coordinates i) (RankM.divergence (u i) .inherit) (.ok d) ∧
        d.extents = (meshes i).extents ∧ (meshes i).Follows (divergenceOf w h J (curlOf w h J V)) d := by
    obtain ⟨contravariant, centred', surrounds⟩ := curls i inside
    exact RankM.answers_divergence (surveyed.measures i inside) (slopes i inside)
      (fun f shaped => Layout.holds (given i inside) (world.room i inside) shaped) contravariant centred' surrounds
  have : Nonempty (Field ℝ) := ⟨(metric 0).dx⟩
  choose! d computed shaped follows using each
  obtain ⟨after, answered, -⟩ := Together.answered known computed
  refine ⟨d, after, (curled.bind answered).ends given world.room, fun i inside x y z interior low high => ?_⟩
  rw [(follows i inside).get (Layout.holds (given i inside) (world.room i inside) (shaped i inside)) interior low high,
    divergenceOf_curlOf surveyed.nonzero]

/-- The curl of a vector in another frame than the metric can be taken, but its divergence is refused. -/
theorem curlDivergence_misaligned {v : Nat → Vector3 (Field ℝ)} {frame : Bool} (other : frame ≠ aligned)
    (covariant : ∀ i < count, (v i).covariant = true) (centred : ∀ i < count, (v i).Centred (meshes i) frame) :
    ∃ (u : Nat → Vector3 (Field ℝ)) (middle after : Nat → Rank ℝ),
      EndsIn (together count ranks fun i => RankM.communicatedCurl (metric i) (v i)) (fun i => (.ok (u i), middle i)) ∧
      EndsIn (together count ranks fun i => RankM.curlDivergence (metric i) (v i))
        (fun i => (.error (.raised (.alignmentsDiffer "Mul")), after i)) := by
  rcases Nat.eq_zero_or_pos count with rfl | some_
  · exact ⟨v, ranks, ranks, endsIn_empty _ rfl rfl, endsIn_empty _ rfl rfl⟩
  obtain ⟨l, rfl, given, periodic, closed, straight, plain⟩ := world.layout some_
  obtain ⟨w, slopes⟩ := world.slopes rfl given some_
  obtain ⟨coordinates, u, middle, h, J, V, curled, known, surveyed, curls⟩ := Together.communicatedCurl given world.room
    periodic closed straight world.shared world.kernels slopes world.own world.identity plain covariant centred
  obtain ⟨after, refused, -⟩ := Together.answered known fun i inside =>
    RankM.answers_divergence_misaligned (surveyed.measures i inside) (curls i inside).1 (curls i inside).2.1 other
  exact ⟨u, middle, after, curled.ends given world.room, (curled.bind refused).ends given world.room⟩

theorem gradientCurl {f : Nat → Field ℝ} (shaped : ∀ i < count, (f i).extents = (meshes i).extents)
    (centre : ∀ i < count, (f i).loc = .centre) :
    ∃ (u : Nat → Vector3 (Field ℝ)) (after : Nat → Rank ℝ),
      EndsIn (together count ranks fun i => RankM.gradientCurl (metric i) (f i)) (fun i => (.ok (u i), after i)) ∧
      ∀ i < count, ∀ a x y z, (meshes i).isInterior x y = true → 0 ≤ z → z < (meshes i).localNz →
        ((u i).component a).get x y z = .ok 0 := by
  rcases Nat.eq_zero_or_pos count with rfl | some_
  · exact ⟨fun i => ⟨f i, f i, f i, true⟩, ranks, endsIn_empty _ rfl rfl, fun i inside => absurd inside (Nat.not_lt_zero i)⟩
  obtain ⟨l, rfl, given, periodic, closed, straight, plain⟩ := world.layout some_
  obtain ⟨w, slopes⟩ := world.slopes rfl given some_
  obtain ⟨coordinates, middle, h, J, geometry, known, surveyed⟩ := Together.surveyed given world.room periodic closed straight
    world.shared world.kernels slopes world.own world.identity
  obtain ⟨D, repeats, followed⟩ := Layout.exists_followed given world.room some_ f
  obtain ⟨f', stores, sent, filled⟩ := Together.communicatedField given world.room (fun i inside => (known i inside).mesh) shaped
  have held (i : Nat) (inside : i < l.count) (f : Field ℝ) (shaped : f.extents = (meshes i).extents) :=
    Layout.holds (given i inside) (world.room i inside) shaped
  have gradients (i : Nat) (inside : i < l.count) : ∃ u,
      RankM.Answers (meshes i) (coordinates i) (RankM.gradient (f' i) .inherit) (.ok u) ∧ u.covariant = true ∧
        u.Centred (meshes i) (f' i).aligned ∧ ∀ a, (meshes i).Follows (slope w h a D) (u.component a) := by
    have alike := filled.alike i inside
    exact RankM.answers_gradient (surveyed.measures i inside) (slopes i inside) (held i inside)
      (alike.extents.trans (shaped i inside)) (alike.loc.trans (centre i inside))
      (filled.surrounds given world.room shaped periodic closed straight repeats followed inside)
  have : Nonempty (Vector3 (Field ℝ)) := ⟨⟨f 0, f 0, f 0, true⟩⟩
  choose! u computed covariant centred follows using gradients
  have still (i : Nat) (inside : i < l.count) :
      ({ middle i with store := stores i } : Rank ℝ).Knows (meshes i) (coordinates i) :=
    ⟨(known i inside).mesh, (known i inside).keeps, (known i inside).identity⟩
  obtain ⟨ranks', graded, known'⟩ := Together.answered still computed
  obtain ⟨u', ranks'', sent', known'', surrounded⟩ := Together.surroundedVector given world.room periodic closed straight
    known' centred (fun a => repeats.slope surveyed.even) fun a i inside => follows i inside a
  have curls (i : Nat) (inside : i < l.count) : ∃ e,
      RankM.Answers (meshes i) (coordinates i) (RankM.curl (u' i) .inherit) (.ok e) ∧ e.covariant = false ∧
        e.Centred (meshes i) (f' i).aligned ∧
          ∀ a, (meshes i).Follows (curlOf w h J (fun b => slope w h b D) a) (e.component a) := by
    obtain ⟨kind, centred', surrounds⟩ := surrounded i inside
    exact RankM.answers_curl (surveyed.measures i inside) (slopes i inside) (held i inside)
      (by rw [Layout.shape_eq (given i inside)]; exact plain) (kind.trans (covariant i inside)) centred' surrounds
  choose! e computed' _ centred' follows' using curls
  obtain ⟨after, curled, -⟩ := Together.answered known'' computed'
  refine ⟨e, after, (geometry.bind (sent.bind (graded.bind (sent'.bind curled)))).ends given world.room,
    fun i inside a x y z interior low high => ?_⟩
  rw [(follows' i inside a).get (held i inside _ ((centred' i inside).shaped a)) interior low high, curlOf_gradient]

end PeriodicWorld

/-- Discrete exactness. On a grid without boundaries, however it is split, the curl of every covariant vector in the frame
of the metric has no divergence, and the gradient of every field has no curl. Both are exact at all interior points. -/
theorem discrete_exactness {source : GridSource ℝ} {options : Options ℝ} {count : Nat} {meshes : Nat → Mesh ℝ}
    {ranks : Nat → Rank ℝ} {aligned : Bool} {metric : Nat → Coordinates ℝ}
    (world : PeriodicWorld source options count meshes ranks aligned metric) :
    (∀ v : Nat → Vector3 (Field ℝ), (∀ i < count, (v i).covariant = true ∧ (v i).Centred (meshes i) aligned) →
      ∃ (d : Nat → Field ℝ) (after : Nat → Rank ℝ),
        EndsIn (together count ranks fun i => RankM.curlDivergence (metric i) (v i)) (fun i => (.ok (d i), after i)) ∧
        ∀ i < count, ∀ x y z, (meshes i).isInterior x y = true → 0 ≤ z → z < (meshes i).localNz →
          (d i).get x y z = .ok 0) ∧
    ∀ f : Nat → Field ℝ, (∀ i < count, (f i).extents = (meshes i).extents ∧ (f i).loc = .centre) →
      ∃ (u : Nat → Vector3 (Field ℝ)) (after : Nat → Rank ℝ),
        EndsIn (together count ranks fun i => RankM.gradientCurl (metric i) (f i)) (fun i => (.ok (u i), after i)) ∧
        ∀ i < count, ∀ a x y z, (meshes i).isInterior x y = true → 0 ≤ z → z < (meshes i).localNz →
          ((u i).component a).get x y z = .ok 0 :=
  ⟨fun _ given => world.curlDivergence (fun i inside => (given i inside).1) fun i inside => (given i inside).2,
    fun _ given => world.gradientCurl (fun i inside => (given i inside).1) fun i inside => (given i inside).2⟩

/-! A grid without boundaries on two ranks above one another, with a metric that varies over it. -/

def Coordinates.ofQuantities {α : Type} (loc : Location) (dz : α) (f : Quantity → Field α) : Coordinates α :=
  { loc, dx := f .dx, dy := f .dy, dz
    contravariant := .ofFunction fun p => f (.contravariant p)
    covariant := .ofFunction fun p => f (.covariant p)
    jacobian := f .jacobian, bxy := f .bxy
    symbols := ⟨.ofFunction fun p => f (.symbol .x p), .ofFunction fun p => f (.symbol .y p),
      .ofFunction fun p => f (.symbol .z p)⟩
    laplacian := ⟨f (.laplacian .x), f (.laplacian .y), f (.laplacian .z)⟩
    shiftTorsion := f .shiftTorsion, intShiftTorsion := f .intShiftTorsion }

theorem Coordinates.get_ofQuantities {α : Type} (loc : Location) (dz : α) (f : Quantity → Field α) (q : Quantity) :
    (ofQuantities loc dz f).get q = f q := by
  cases q with
  | symbol k p => cases k <;> cases p <;> rfl
  | contravariant p | covariant p => exact Symmetric.get_ofFunction _ p
  | laplacian k => cases k <;> rfl
  | _ => rfl

/-- Over exact arithmetic only signs matter to the check. -/
theorem Coordinates.defect?_none {q : Quantity} {x y : Int} {v : ℝ} (positive : q.isPositive = true → 0 < v)
    (nonzero : q = .jacobian → v ≠ 0) : defect? q x y v = none := by
  have sign : (q.isPositive && Scalar.le v (@OfNat.ofNat ℝ 0 (Scalar.instOfNatScalar 0))) = false := by
    cases sign : q.isPositive with
    | false => rfl
    | true => exact decide_eq_false (by rw [Exact.zero_eq]; exact not_le.mpr (positive sign))
  have zero : (decide (q = .jacobian) && Scalar.same v (@OfNat.ofNat ℝ 0 (Scalar.instOfNatScalar 0))) = false := by
    by_cases own : q = .jacobian
    · rw [decide_eq_true own, Bool.true_and]
      exact decide_eq_false (by rw [Exact.zero_eq]; exact nonzero own)
    · rw [decide_eq_false own, Bool.false_and]
  have finite : ¬ (Scalar.isUndefined v || Scalar.isInfinite v) = true := Bool.false_ne_true
  rw [defect?, if_neg finite, sign, zero]
  rfl

/-- The spacings grow along their own axes, and the jacobian over both. -/
noncomputable def ringMetric (q : Quantity) (column row : Int) : ℝ :=
  match q with
  | .dx => column ^ 2 + 1
  | .dy => row ^ 2 + 1
  | .jacobian => column ^ 2 + row ^ 2 + 1
  | _ => if q.isPositive then 2 else 0

theorem ringMetric_sound (q : Quantity) (x y column row : Int) :
    Coordinates.defect? q x y (ringMetric q column row) = none := by
  have squares : (0 : ℝ) ≤ (column : ℝ) ^ 2 ∧ (0 : ℝ) ≤ (row : ℝ) ^ 2 := ⟨sq_nonneg _, sq_nonneg _⟩
  refine Coordinates.defect?_none (fun positive => ?_) fun jacobian => ?_
  · unfold ringMetric
    split
    · linarith
    · linarith
    · linarith
    · rw [if_pos positive]
      norm_num
  · rw [jacobian]
    exact ne_of_gt (show (0 : ℝ) < (column : ℝ) ^ 2 + (row : ℝ) ^ 2 + 1 by linarith)

noncomputable def ringVector (a : Axis) (column row z : Int) : ℝ :=
  match a with
  | .x => ((column * z + row : Int) : ℝ)
  | .y => ((column - 2 * row + z : Int) : ℝ)
  | .z => ((column * row + z : Int) : ℝ)

/-- A vector over a block, with the components of the ring in a given frame. -/
structure RingVector (m : Mesh ℝ) (frame : Bool) (v : Vector3 (Field ℝ)) : Prop where
  covariant : v.covariant = true
  centred : v.Centred m frame
  values : ∀ a x y z, (v.component a).HasPoint x y z → (v.component a).value x y z = ringVector a (m.globalX x) (m.globalY y) z

section Ring

variable {m : Mesh ℝ}

theorem ring_linear {i : Nat} (loaded : Mesh.load GridSource.empty ringOptions ⟨i, 2⟩ = .ok (m, []))
    (shape : m.shape = ringShape) (axis : Axis) :
    ∃ k, m.kernel axis ⟨.first, false⟩ .standard = .ok k ∧ k.isLinear = true := by
  obtain ⟨-, ⟨_, chosen⟩, -⟩ := Mesh.load_reads loaded
  rw [Defaults.read_plain plain_ring] at chosen
  have defaults := (Prod.mk.inj (Except.ok.inj chosen)).1
  have guards : axis = .z ∨ 1 ≤ m.guards axis := by
    cases axis <;> simp [Mesh.guards, shape, ringShape]
  have narrow : ¬ (axis ≠ .z ∧ m.guards axis < ((1 : Nat) : Int)) := by
    rintro ⟨across, few⟩
    have := guards.resolve_left across
    omega
  have resolved : (Defaults.resolve ⟨Defaults.places.map fun place => (place, place.2.fallback)⟩ axis ⟨.first, false⟩
      .standard : Except Error (Kernel ℝ)) = .ok ⟨.c2, ⟨.first, false⟩, 1, true, .derivative Kernel.firstC2⟩ := by
    cases axis <;> rfl
  refine ⟨⟨.c2, ⟨.first, false⟩, 1, true, .derivative Kernel.firstC2⟩, ?_, rfl⟩
  rw [Mesh.kernel, ← defaults, resolved]
  exact if_neg narrow

variable {quantity : Quantity → Field ℝ} (holds : ∀ q, m.Holds (quantity q))
  (values : ∀ q x y z, (quantity q).HasPoint x y z →
    (quantity q).value x y z = ringMetric q (m.globalX x) (m.globalY y))
include holds values

theorem ringMetric_follows (q : Quantity) : m.Follows (fun P => ringMetric q (P .x) (P .y)) (quantity q) :=
  fun _ within => values _ _ _ _ ((holds q).interior within.interior within.low within.high).1

theorem ringMetric_passes : (Coordinates.ofQuantities .centre 1 quantity).check m = .ok () := by
  refine Coordinates.check_of_sound fun q _ x y interior => ?_
  have points := (holds q).points
  have has := ((holds q).interior_point interior (le_refl 0) (by omega)).1
  rw [Coordinates.get_ofQuantities, Field.get_eq (holds q).fits has]
  exact ⟨_, rfl, by rw [values q _ _ _ has]; exact ringMetric_sound ..⟩

theorem ringMetric_nonzero {p : Axis → Int} (within : m.Inside p) : (quantity .jacobian).pointValue p ≠ 0 := by
  have level : (quantity .jacobian).ConstantAlong .z := by
    intro p has j _
    have reads : (quantity .jacobian).Reads .z j := .inl rfl
    exact (values _ _ _ _ (has.update reads)).trans (values _ _ _ _ has).symm
  exact Coordinates.jacobian_ne_zero (ringMetric_passes holds values) level (holds _) within

end Ring

theorem exists_ring : ∃ (meshes : Nat → Mesh ℝ) (metric : Nat → Coordinates ℝ),
    PeriodicWorld GridSource.empty ringOptions 2 meshes (fun i => Rank.ofMesh (meshes i) []) false metric ∧
      ∀ frame, ∃ v : Nat → Vector3 (Field ℝ), ∀ i < 2, RingVector (meshes i) frame (v i) := by
  have : Nonempty (Mesh ℝ) := ⟨(load_ring 0 (by decide)).choose⟩
  choose! meshes loaded room shape using load_ring
  obtain ⟨l, -, given⟩ := Layout.of_world (by decide : 0 < 2) fun i inside => ⟨[], loaded i inside⟩
  have field (i : Nat) (inside : i < 2) := Layout.exists_field (given i inside) (room i inside) .centre
  have : Nonempty (Field ℝ) := ⟨(field 0 (by decide) false fun _ _ _ => 0).choose⟩
  choose! make shaped loc frame values using field
  let quantity (i : Nat) (q : Quantity) : Field ℝ := make i false fun column row _ => ringMetric q column row
  have holds (i : Nat) (inside : i < 2) (q : Quantity) : (meshes i).Holds (quantity i q) :=
    Layout.holds (given i inside) (room i inside) (shaped i inside _ _)
  have measured (i : Nat) (inside : i < 2) (q : Quantity) := values i inside false fun column row _ => ringMetric q column row
  have shared : SharedMetric 2 meshes false fun i => .ofQuantities .centre 1 (quantity i) := by
    refine ⟨fun i inside => ⟨rfl, fun q _ => ?_, fun q _ _ => ?_⟩,
      fun i inside => ringMetric_passes (holds i inside) (measured i inside),
      fun i inside p within => ringMetric_nonzero (holds i inside) (measured i inside) within,
      ⟨fun column => ringMetric .dx column 0, fun i inside => ringMetric_follows (holds i inside) (measured i inside) .dx⟩,
      ⟨fun row => ringMetric .dy 0 row, fun i inside => ringMetric_follows (holds i inside) (measured i inside) .dy⟩,
      1, fun _ _ => rfl⟩
    · rw [Coordinates.get_ofQuantities]
      exact ⟨shaped i inside _ _, loc i inside _ _⟩
    · rw [Coordinates.get_ofQuantities]
      exact frame i inside _ _
  refine ⟨meshes, fun i => .ofQuantities .centre 1 (quantity i), ⟨fun i inside => ⟨[], loaded i inside⟩, room, ?_, ?_, ?_,
    fun i inside => ring_linear (loaded i inside) (shape i inside), fun _ _ => rfl, ?_, shared⟩,
    fun frame' => ⟨fun i => ⟨make i frame' (ringVector .x), make i frame' (ringVector .y), make i frame' (ringVector .z), true⟩,
      fun i inside => ⟨rfl, ⟨?_, ?_, ?_⟩, ?_⟩⟩⟩
  · intro i inside
    rw [shape i inside]
    rfl
  · intro i inside
    rw [shape i inside]
    rfl
  · intro i inside
    rw [shape i inside]
    exact ⟨rfl, rfl⟩
  · intro i inside
    refine .inr ⟨rfl, ?_⟩
    have unset : ringOptions.isSet "paralleltransform" = false := by decide +kernel
    rw [Mesh.load_options (loaded i inside), transformName_unset unset]
    decide
  · intro a
    cases a <;> exact shaped i inside _ _
  · intro a
    cases a <;> exact loc i inside _ _
  · intro a
    cases a <;> exact frame i inside _ _
  · intro a
    cases a <;> exact values i inside _ _

theorem discrete_exactness_ring : ∃ (meshes : Nat → Mesh ℝ) (metric : Nat → Coordinates ℝ) (v u : Nat → Vector3 (Field ℝ)),
    PeriodicWorld GridSource.empty ringOptions 2 meshes (fun i => Rank.ofMesh (meshes i) []) false metric ∧
    (∀ i < 2, RingVector (meshes i) false (v i) ∧ RingVector (meshes i) true (u i)) ∧
    (∃ (d : Nat → Field ℝ) (after : Nat → Rank ℝ),
      EndsIn (together 2 (fun i => Rank.ofMesh (meshes i) []) fun i => RankM.curlDivergence (metric i) (v i))
        (fun i => (.ok (d i), after i)) ∧
      ∀ i < 2, ∀ x y z, (meshes i).isInterior x y = true → 0 ≤ z → z < (meshes i).localNz → (d i).get x y z = .ok 0) ∧
    ∃ (e : Nat → Vector3 (Field ℝ)) (after : Nat → Rank ℝ),
      EndsIn (together 2 (fun i => Rank.ofMesh (meshes i) []) fun i => RankM.gradientCurl (metric i) (u i).z)
        (fun i => (.ok (e i), after i)) ∧
      ∀ i < 2, ∀ a x y z, (meshes i).isInterior x y = true → 0 ≤ z → z < (meshes i).localNz →
        ((e i).component a).get x y z = .ok 0 := by
  obtain ⟨meshes, metric, world, vectors⟩ := exists_ring
  obtain ⟨v, standard⟩ := vectors false
  obtain ⟨u, aligned⟩ := vectors true
  obtain ⟨divergences, curls⟩ := discrete_exactness world
  exact ⟨meshes, metric, v, u, world, fun i inside => ⟨standard i inside, aligned i inside⟩,
    divergences v fun i inside => ⟨(standard i inside).covariant, (standard i inside).centred⟩,
    curls (fun i => (u i).z) fun i inside => ⟨(aligned i inside).centred.shaped .z, (aligned i inside).centred.loc .z⟩⟩

/-- A vector in the aligned frame has a curl on the ring, but the divergence of that is refused, since the metric is in the
standard frame. -/
theorem aligned_divergence_refused : ∃ (meshes : Nat → Mesh ℝ) (metric : Nat → Coordinates ℝ) (v : Nat → Vector3 (Field ℝ)),
    PeriodicWorld GridSource.empty ringOptions 2 meshes (fun i => Rank.ofMesh (meshes i) []) false metric ∧
    (∀ i < 2, RingVector (meshes i) true (v i)) ∧
    (∃ (u : Nat → Vector3 (Field ℝ)) (after : Nat → Rank ℝ),
      EndsIn (together 2 (fun i => Rank.ofMesh (meshes i) []) fun i => RankM.communicatedCurl (metric i) (v i))
        (fun i => (.ok (u i), after i))) ∧
    (∃ after : Nat → Rank ℝ,
      EndsIn (together 2 (fun i => Rank.ofMesh (meshes i) []) fun i => RankM.curlDivergence (metric i) (v i))
        (fun i => (.error (.raised (.alignmentsDiffer "Mul")), after i))) ∧
    ¬ ∃ (d : Nat → Field ℝ) (after : Nat → Rank ℝ),
      EndsIn (together 2 (fun i => Rank.ofMesh (meshes i) []) fun i => RankM.curlDivergence (metric i) (v i))
        (fun i => (.ok (d i), after i)) := by
  obtain ⟨meshes, metric, world, vectors⟩ := exists_ring
  obtain ⟨v, aligned⟩ := vectors true
  obtain ⟨u, middle, after, curled, refused⟩ := world.curlDivergence_misaligned (show true ≠ false by decide)
    (fun i inside => (aligned i inside).covariant) fun i inside => (aligned i inside).centred
  refine ⟨meshes, metric, v, world, aligned, ⟨u, middle, curled⟩, ⟨after, refused⟩, ?_⟩
  intro ends
  obtain ⟨d, after', ended⟩ := ends
  have same := refused.unique ended (i := 0) (by simp [together])
  simp at same

end HaloMesh
