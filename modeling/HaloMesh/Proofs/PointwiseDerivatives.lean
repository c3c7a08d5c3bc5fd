import HaloMesh.Proofs.DefaultDerivatives

/-! Derivatives on loaded meshes, index by index and point by point. Storage is only read at points of the line that a
value is worked out for, and the value is that of the kernel on this line. -/

namespace HaloMesh

variable {α : Type}

namespace Window

/-- The indices that a window around point `i` of a line asks for. -/
def asked (α : Type) [Scalar α] (i : Int) (o : Offset) (width : Int) : List Int :=
  let record (j : Int) : StateM (List Int) α := do
    modify (· ++ [j])
    return 0
  ((gather record i o width).run []).2

theorem asked_near [Scalar α] {i j : Int} {o : Offset} {width : Nat} (member : j ∈ asked α i o width) :
    i - width ≤ j ∧ j ≤ i + width := by
  have ends : (o.neighbours i).1 ≤ i ∧ i - 1 ≤ (o.neighbours i).1 ∧ i ≤ (o.neighbours i).2 ∧
      (o.neighbours i).2 ≤ i + 1 := by
    cases o <;> simp only [Offset.neighbours] <;> omega
  simp only [asked, gather, gatherAround] at member
  by_cases point : (width : Int) < 1
  · simp only [if_pos point] at member
    have : j ∈ [i] := member
    simp at this
    omega
  · by_cases near : (width : Int) ≤ 1
    · simp only [if_neg point, if_pos near] at member
      have : j ∈ [i, (o.neighbours i).1, (o.neighbours i).2] := member
      simp at this
      omega
    · simp only [if_neg point, if_neg near] at member
      have : j ∈ [i, (o.neighbours i).1, (o.neighbours i).2, (o.neighbours i).1 - 1, (o.neighbours i).2 + 1] := member
      simp at this
      omega

end Window

/-- The indices of a line that a kernel asks for to get its value at point `i`. The spectral one asks for all. -/
def Kernel.asks [Scalar α] (k : Kernel α) (o : Offset) (n : Nat) (i : Int) : List Int :=
  if k.isSpectral then Index.span 0 ((n : Int) - 1) else Window.asked α i o k.width

/-- Storage index `n` is in range and belongs to the point with index `j` on the line through a point. -/
def Field.Locates (f : Field α) (axis : Axis) (x y z j n : Int) : Prop :=
  (0 ≤ n ∧ n < f.data.size) ∧
    f.HasPoint (f.pointAlong axis x y z j).1 (f.pointAlong axis x y z j).2.1 (f.pointAlong axis x y z j).2.2 ∧
    n = f.place (f.pointAlong axis x y z j).1 (f.pointAlong axis x y z j).2.1 (f.pointAlong axis x y z j).2.2

variable [Scalar α]

namespace Mesh

/-- Every value that is worked out along an axis belongs to a point that is evaluated, and what is read for it belongs to
the line through this point. -/
def StaysOnLines (m : Mesh α) (axis : Axis) (inc : Bool) (k : Kernel α) (o : Offset) (f : Field α) : Prop :=
  ∀ l ∈ m.evaluationLines f axis inc, ∀ i, l.lo ≤ i → i ≤ l.hi → ∃ x y z, f.HasPoint x y z ∧
    m.Evaluates axis inc x y ∧ i = axis.coordinate x y z ∧
    l.base + i * (m.lineReader f axis).stride = f.place x y z ∧
    ∀ j ∈ k.asks o f.nz i, f.Locates axis x y z j ((m.lineReader f axis).position l.base j)

variable {m : Mesh α} {axis : Axis} {f : Field α} {k : Kernel α}

theorem Bears.staysOnLines (bears : m.Bears f) {family : Family} {method : Method}
    (made : m.kernel axis family method = .ok k) (o : Offset) (inc : Bool) : m.StaysOnLines axis inc k o f := by
  obtain ⟨own, along, reach⟩ := kernel_ok made
  intro l member i low high
  obtain ⟨x, y, z, has, evaluated, base, rfl⟩ := bears.only_evaluated member low high
  refine ⟨x, y, z, has, evaluated, rfl, ?_, fun j asked => ?_⟩
  · rw [base]
    exact f.lineBase_place axis x y z
  · have within : f.Reads axis j := by
      simp only [Kernel.asks] at asked
      split at asked
      -- the spectral kernel is for z only, where every index stands for a point
      next spectral => exact .inl (along spectral)
      next =>
        obtain ⟨above, below⟩ := Window.asked_near asked
        exact bears.reads reach evaluated above below
    obtain ⟨there, place⟩ := Field.position_along has within
    rw [bears.lineReader_eq, base, place]
    exact ⟨Field.place_range bears.fits there, there, rfl⟩

/-- What a derivative along an axis by one method does where nothing has to be moved. Along z a single point has no
derivative but zero. A split derivative takes the default kernels that it is put together from, and multiplies the
field by zero where these are not evaluated. -/
structure Pointwise (m : Mesh α) (f : Field α) (axis : Axis) (method : Method) : Prop where
  derives : ∀ {kind place inc p k}, kind.isFlow = false → m.plan axis f.loc place = .ok p → p.inputTo = none →
    p.resultTo = none → m.kernel axis ⟨kind, p.staggered⟩ method = .ok k →
    m.StaysOnLines axis inc k p.offset f ∧
    ∃ d, m.derivative axis kind f place method inc = .ok d ∧ Field.Alike (f.retag p.output) d ∧
      ∀ x y z, f.HasPoint x y z → d.value x y z = if m.Evaluates axis inc x y ∧ ¬ (axis = .z ∧ m.localNz = 1)
        then k.slope kind p.offset f.nz (f.along axis x y z) (axis.coordinate x y z) else 0
  carries : ∀ {kind place plan k} {v : Field α}, v.Fits → v.extents = m.extents → kind.isFlow = true →
    m.flowPlan axis v f place = .ok plan → m.kernel axis ⟨kind, plan.1⟩ method = .ok k → k.isSplit = false →
    m.StaysOnLines axis false k .centred f ∧ m.StaysOnLines axis false k plan.2 v ∧
    ∃ d, m.flow axis kind v f place method = .ok d ∧ Field.Alike f d ∧
      ∀ x y z, f.HasPoint x y z → d.value x y z = if m.Evaluates axis false x y ∧ ¬ (axis = .z ∧ m.localNz = 1)
        then k.carry plan.2 (v.along axis x y z) (f.along axis x y z) (axis.coordinate x y z) else 0
  splits : ∀ {kind place plan k upwind first} {v : Field α}, v.Fits → v.extents = m.extents → v.aligned = f.aligned →
    m.flowPlan axis v f place = .ok plan → m.kernel axis ⟨kind, plan.1⟩ method = .ok k → k.isSplit = true →
    m.kernel axis ⟨.upwind, plan.1⟩ .standard = .ok upwind → m.kernel axis ⟨.first, plan.1⟩ .standard = .ok first →
    m.StaysOnLines axis false upwind .centred f ∧ m.StaysOnLines axis false upwind plan.2 v ∧
    m.StaysOnLines axis false first plan.2 v ∧
    ∃ d, m.flow axis kind v f place method = .ok d ∧ Field.Alike f d ∧
      ∀ x y z, f.HasPoint x y z → d.value x y z = if m.axisSize axis = 1 then 0 else
        (if m.Evaluates axis false x y
          then upwind.carry plan.2 (v.along axis x y z) (f.along axis x y z) (axis.coordinate x y z) else 0) +
        f.value x y z * (if m.Evaluates axis false x y
          then first.slope .first plan.2 v.nz (v.along axis x y z) (axis.coordinate x y z) else 0)

theorem Bears.pointwise (bears : m.Bears f) (axis : Axis) (method : Method) : m.Pointwise f axis method where
  derives plain planned input result made := by
    refine ⟨bears.staysOnLines made _ _, ?_⟩
    obtain ⟨d, computed, alike, values⟩ := derivative_values bears planned input result made plain
    refine ⟨d, computed, alike, fun x y z has => ?_⟩
    rw [values x y z has]
    exact if_congr (bears.evaluates_several made) rfl rfl
  carries fits shaped flow planned made whole := by
    have bearsV := { bears with fits, shaped }
    refine ⟨bears.staysOnLines made _ _, Bears.staysOnLines bearsV made _ _, ?_⟩
    obtain ⟨d, computed, alike, values⟩ :=
      flow_values bears (shaped.trans bears.shaped.symm) fits planned made flow whole
    refine ⟨d, computed, alike, fun x y z has => ?_⟩
    rw [values x y z has]
    exact if_congr (bears.evaluates_several made) rfl rfl
  splits fits shaped aligned planned made split found found' := by
    have bearsV := { bears with fits, shaped }
    exact ⟨bears.staysOnLines found _ _, Bears.staysOnLines bearsV found _ _, Bears.staysOnLines bearsV found' _ _,
      flow_split_values bears (shaped.trans bears.shaped.symm) fits planned made split aligned found found'⟩

end Mesh

/-- Derivatives on a loaded mesh are taken point by point, from the lines through the points. -/
theorem derivatives_pointwise (source : GridSource α) {o : Options α} {i count : Nat} {m : Mesh α}
    {messages : List String} (inside : i < count) (loaded : Mesh.load source o ⟨i, count⟩ = .ok (m, messages))
    {f : Field α} (fits : f.Fits) (shaped : f.extents = m.extents) (axis : Axis) (method : Method) :
    m.Pointwise f axis method := by
  obtain ⟨l, rfl, given⟩ := Layout.of_load loaded
  exact (Layout.bears (given i inside m messages loaded) fits shaped).pointwise axis method

/-- The squares of the columns have a second difference of two. -/
def squares : Field Whole :=
  { nx := 6, ny := 4, nz := 2, data := Array.ofFn fun n : Fin 48 => ⟨(n.val / 8 : Nat) ^ 2⟩, loc := .centre
    aligned := false
    data_size := by rw [Array.size_ofFn]; rfl }

theorem derivatives_pointwise_squares : ∃ m messages,
    Mesh.load GridSource.empty formlessOptions ⟨0, 1⟩ = .ok (m, messages) ∧
    ∃ d, m.derivative .x .second squares .inherit .c2 false = .ok d ∧ d.value 2 1 0 = ⟨2⟩ ∧ d.value 0 1 0 = ⟨0⟩ := by
  obtain ⟨m, messages, loaded, shaped, ⟨start, last⟩, -⟩ := load_formless
  have made : m.kernel .x ⟨.second, false⟩ .c2 = .ok ⟨.c2, ⟨.second, false⟩, 1, true, .derivative Kernel.secondC2⟩ := by
    have wide : ¬ (Axis.x ≠ .z ∧ m.shape.mxg < 1) := by
      have := (Mesh.load_guards loaded).1
      omega
    exact if_neg wide
  have pointwise := derivatives_pointwise GridSource.empty (by decide : 0 < 1) loaded (by decide : squares.Fits)
    shaped.symm .x .c2
  obtain ⟨-, d, computed, -, values⟩ :=
    pointwise.derives rfl (m.plan_own .x .centre : m.plan .x squares.loc .inherit = _) rfl rfl made
  refine ⟨m, messages, loaded, d, computed, ?_, ?_⟩
  · rw [values 2 1 0 ⟨⟨by decide, by decide⟩, by decide⟩, if_pos ⟨⟨by omega, by omega⟩, by simp⟩]
    decide +kernel
  · rw [values 0 1 0 ⟨⟨by decide, by decide⟩, by decide⟩, if_neg]
    · rfl
    · rintro ⟨⟨low, -⟩, -⟩
      omega

/-! A single point along z. Its neighbours are itself, and the difference of an undefined number to itself is
undefined. -/

/-- Whole numbers, and a number that is undefined like everything worked out from it. -/
structure PartialWhole where
  value : Option Int
deriving DecidableEq, Repr

namespace PartialWhole

def combine (op : Int → Int → Int) (a b : PartialWhole) : PartialWhole :=
  ⟨do return op (← a.value) (← b.value)⟩

def compare (op : Int → Int → Bool) (a b : PartialWhole) : Bool :=
  match a.value, b.value with
  | some a, some b => op a b
  | _, _ => false

def map (op : Int → Int) (a : PartialWhole) : PartialWhole := ⟨a.value.map op⟩

def whole (a : PartialWhole) : Int := a.value.getD 0

instance : Scalar PartialWhole where
  add := combine (· + ·)
  sub := combine (· - ·)
  mul := combine (· * ·)
  div a b := if b.value = some 0 then ⟨none⟩ else combine (· / ·) a b
  neg := map Neg.neg
  ofInt n := ⟨some n⟩
  ofScientific m negative e := ⟨some (if negative then m / 10 ^ e else m * 10 ^ e)⟩
  lt := compare fun a b => decide (a < b)
  le := compare fun a b => decide (a ≤ b)
  same := compare fun a b => decide (a = b)
  abs := map fun a => a.natAbs
  sqrt := map fun a => a.toNat.sqrt
  sin := map fun _ => 0
  cos := map fun _ => 1
  pi := ⟨some 3⟩
  wholePower a n := a.map fun a => a ^ n.toNat
  undefined := ⟨none⟩
  isUndefined a := a.value.isNone
  isInfinite _ := false
  round := whole
  roundEven := whole
  truncate := whole
  text a := toString a.whole
  plainText a := toString a.whole
  dataText a := toString a.whole
  tableText a := toString a.whole

end PartialWhole

/-- Two interior columns and two interior rows of single points. -/
def plateSource : GridSource PartialWhole := ⟨[("nx", ⟨some 6⟩), ("ny", ⟨some 2⟩)], [], []⟩

def plateShape : GridShape PartialWhole :=
  { nx := 6, ny := 2, nz := 1, mxg := 2, myg := 2, zMin := ⟨some 0⟩, zMax := ⟨some 1⟩, topology := .rectangular 2 true
    shiftAngle := none, twistShift := false, periodicX := false, staggerGrids := false, shiftXderivs := false
    incIntShear := false }

theorem read_plate : GridShape.read plateSource Options.empty = .ok (plateShape, []) := by
  simp only [GridShape.read, gridWhole, GridShape.readTopology, GridShape.readShiftAngle, Options.whole_empty,
    Options.flag_empty, Options.real_empty, Options.isSet_empty]
  rfl

theorem settle_plate : plateShape.settleSplit Options.empty 1 = .ok 1 := by
  simp only [GridShape.settleSplit, Options.isSet_empty]
  rfl

/-- Nowhere defined. -/
def blankField : Field PartialWhole :=
  { nx := 6, ny := 6, nz := 1, data := Array.replicate 36 ⟨none⟩, loc := .centre, aligned := false
    data_size := by rw [Array.size_replicate]; rfl }

theorem single_point_skipped : ∃ m, Mesh.load plateSource Options.empty ⟨0, 1⟩ = .ok (m, []) ∧
    blankField.Fits ∧ blankField.extents = m.extents ∧
    ∃ p k d, m.plan .z blankField.loc .inherit = .ok p ∧ p.inputTo = none ∧ p.resultTo = none ∧
      m.kernel .z ⟨.first, p.staggered⟩ .c2 = .ok k ∧ m.derivative .z .first blankField .inherit .c2 false = .ok d ∧
      blankField.HasPoint 2 2 0 ∧ m.Evaluates .z false 2 2 ∧
      d.value 2 2 0 ≠ k.slope .first p.offset blankField.nz (blankField.along .z 2 2 0) 0 := by
  have centre : blankField.HasPoint 2 2 0 := ⟨⟨by decide, by decide⟩, by decide⟩
  refine ⟨_, Mesh.load_of_steps read_plate settle_plate rfl rfl rfl rfl rfl rfl defaults_empty rfl transformName_empty,
    by decide, rfl, ⟨.centre, false, .centre, .centred, none, none⟩,
    ⟨.c2, ⟨.first, false⟩, 1, true, .derivative Kernel.firstC2⟩, blankField.zeroLike.retag .centre, rfl, rfl, rfl, rfl, rfl,
    centre, ?_, ?_⟩
  · decide
  · decide +kernel

end HaloMesh
