import Mathlib.Algebra.BigOperators.Intervals
import HaloMesh.Proofs.ClosedLines
import HaloMesh.Proofs.FieldLineSums
import HaloMesh.Proofs.ExactArithmetic
import HaloMesh.Proofs.SplitIndependence

/-! Fluxes are conserved. The conservative derivatives take what passes the upper face of a cell from what passes the
lower one, and the cells on both sides of a face tell the same of it. On a line without an end nothing is left over. -/

namespace HaloMesh
open Transport

/-- Whether the velocity is given half a cell off the field. -/
def Offset.staggered : Offset → Bool
  | .centred => false
  | .toLow => true
  | .toCentre => true

/-- The flux methods that work with faces. The split method does not. -/
def Offset.fluxMethods : Offset → List Method
  | .centred => [.u1, .c2, .c4]
  | .toLow => [.u1]
  | .toCentre => [.u1]

/-- How far a flux method reaches. -/
def Method.fluxReach (method : Method) : Nat := if method = .c4 then 2 else 1

/-- Where a velocity lies against the field that it carries along an axis. -/
def Mesh.Lies {α : Type} (m : Mesh α) (axis : Axis) (v f : Field α) : Offset → Prop
  | .centred => v.loc = f.loc
  | .toLow => m.shape.staggerGrids = true ∧ v.loc = .centre ∧ f.loc = axis.low
  | .toCentre => m.shape.staggerGrids = true ∧ v.loc = axis.low ∧ f.loc = .centre

namespace Exact

/-- What passes the lower face of a cell downwards. -/
noncomputable def face (o : Offset) (method : Method) (v f : Int → ℝ) (i : Int) : ℝ :=
  match o, method with
  | .centred, .c2 => (v i * f i + v (i - 1) * f (i - 1)) / 2
  | .centred, .c4 =>
    (7 * (v i * f i + v (i - 1) * f (i - 1)) - v (i + 1) * f (i + 1) - v (i - 2) * f (i - 2)) / 12
  | .centred, _ => Kernel.carried (1 / 2 * (v (i - 1) + v i)) (f (i - 1)) (f i)
  | .toLow, _ => Kernel.carried (v (i - 1)) (f (i - 1)) (f i)
  | .toCentre, _ => Kernel.carried (v i) (f (i - 1)) (f i)

variable {o : Offset} {method : Method} {k : Kernel ℝ} {v f : Int → ℝ}

/-- A flux is the difference of what passes the two faces of its cell. -/
theorem carry_faces (made : Kernel.of? ⟨.flux, o.staggered⟩ method = some k) (known : method ∈ o.fluxMethods) (i : Int) :
    k.carry o v f i = face o method v f (i + 1) - face o method v f i := by
  cases o <;> simp only [Offset.fluxMethods, List.mem_cons, List.not_mem_nil, or_false] at known
  · rcases known with rfl | rfl | rfl <;> cases made
    · change Kernel.fluxU1 (Window.on v i .centred (1 : Nat)) (Window.on f i .centred (1 : Nat)) = _
      rw [window_near, window_near]
      simp only [Kernel.fluxU1, face, half_eq, Int.add_sub_cancel]
      ring
    · change Kernel.fluxC2 (Window.on v i .centred (1 : Nat)) (Window.on f i .centred (1 : Nat)) = _
      rw [window_near, window_near]
      simp only [Kernel.fluxC2, face, half_eq, Int.add_sub_cancel]
      ring
    · change Kernel.fluxC4 (Window.on v i .centred (2 : Nat)) (Window.on f i .centred (2 : Nat)) = _
      rw [window_far, window_far]
      simp only [Kernel.fluxC4, face, ofNat_eq, Int.add_sub_cancel, Int.sub_sub, Int.reduceAdd, Int.add_sub_assoc,
        Int.reduceSub, ← Int.sub_eq_add_neg]
      norm_num
      ring
  · obtain rfl := known
    cases made
    change Kernel.staggeredFluxU1 (Window.on v i .toLow (1 : Nat)) (Window.on f i .centred (1 : Nat)) = _
    have straddled : Window.on v i .toLow (1 : Nat) = ⟨Scalar.ofInt 0, v (i - 1), v i, v i, Scalar.ofInt 0⟩ := rfl
    rw [straddled, window_near]
    simp only [Kernel.staggeredFluxU1, face, Int.add_sub_cancel]
    ring
  · obtain rfl := known
    cases made
    change Kernel.staggeredFluxU1 (Window.on v i .toCentre (1 : Nat)) (Window.on f i .centred (1 : Nat)) = _
    have straddled : Window.on v i .toCentre (1 : Nat) = ⟨Scalar.ofInt 0, v i, v i, v (i + 1), Scalar.ofInt 0⟩ := rfl
    rw [straddled, window_near]
    simp only [Kernel.staggeredFluxU1, face, Int.add_sub_cancel]
    ring

/-- Around a line without an end the fluxes add up to nothing. -/
theorem sum_carry_around {n : Nat} (made : Kernel.of? ⟨.flux, o.staggered⟩ method = some k)
    (known : method ∈ o.fluxMethods) (again : ∀ i, v (i + n) = v i) (again' : ∀ i, f (i + n) = f i) :
    ∑ i ∈ Finset.range n, k.carry o v f i = 0 := by
  have closes : face o method v f n = face o method v f 0 := by
    have back (g : Int → ℝ) (again : ∀ i, g (i + n) = g i) (j : Int) : g (n + j) = g j := Int.add_comm j n ▸ again j
    have here (g : Int → ℝ) (again : ∀ i, g (i + n) = g i) : g n = g 0 := by simpa using again 0
    cases o <;> cases method <;>
      simp only [face, Int.sub_eq_add_neg, back v again, back f again', here v again, here f again', Int.zero_add]
  calc ∑ i ∈ Finset.range n, k.carry o v f i
      = ∑ i ∈ Finset.range n, (face o method v f ((i + 1 : Nat) : Int) - face o method v f (i : Nat)) :=
        Finset.sum_congr rfl fun i _ => by rw [carry_faces made known, Nat.cast_add, Nat.cast_one]
    _ = face o method v f n - face o method v f 0 := Finset.sum_range_sub (fun i : Nat => face o method v f i) n
    _ = 0 := by rw [closes, sub_self]

end Exact

namespace Mesh

variable {m : Mesh ℝ} {axis : Axis} {o : Offset} {method : Method} {v f : Field ℝ} {place : Placement}

theorem flowPlan_lies (lies : m.Lies axis v f o) (own : place.orElse f.loc = .real f.loc) :
    m.flowPlan axis v f place = .ok (o.staggered, o) := by
  have apart : axis.low ≠ .centre := by cases axis <;> decide
  rw [flowPlan, if_neg (not_not.mpr own)]
  cases o with
  | centred => exact if_pos lies
  | toLow =>
    obtain ⟨staggers, velocity, field⟩ := lies
    simp [velocity, field, staggers, apart, apart.symm, Offset.staggered]
  | toCentre =>
    obtain ⟨staggers, velocity, field⟩ := lies
    simp [velocity, field, staggers, apart, Offset.staggered]

/-- The kernel of a flux that fits into the guard cells. -/
theorem kernel_flux (known : method ∈ o.fluxMethods) (fits : axis = .z ∨ (method.fluxReach : Int) ≤ m.guards axis) :
    ∃ k, m.kernel axis ⟨.flux, o.staggered⟩ method = .ok k ∧ Kernel.of? ⟨.flux, o.staggered⟩ method = some k ∧
      k.isSplit = false := by
  have found : ∃ k : Kernel ℝ, (∀ d : Defaults, d.resolve axis ⟨.flux, o.staggered⟩ method = .ok k) ∧
      Kernel.of? ⟨.flux, o.staggered⟩ method = some k ∧ k.isSplit = false ∧ k.width = method.fluxReach := by
    cases o <;> simp only [Offset.fluxMethods, List.mem_cons, List.not_mem_nil, or_false] at known
    · rcases known with rfl | rfl | rfl <;> exact ⟨_, fun _ => by cases axis <;> rfl, rfl, rfl, rfl⟩
    · obtain rfl := known
      exact ⟨_, fun _ => by cases axis <;> rfl, rfl, rfl, rfl⟩
    · obtain rfl := known
      exact ⟨_, fun _ => by cases axis <;> rfl, rfl, rfl, rfl⟩
  obtain ⟨k, resolved, made, whole, reach⟩ := found
  refine ⟨k, ?_, made, whole⟩
  have narrow : ¬ (axis ≠ .z ∧ m.guards axis < (k.width : Int)) := by
    rw [reach]
    exact fun wide => fits.elim wide.1 fun most => absurd wide.2 (not_lt.mpr most)
  rw [kernel, resolved]
  exact if_neg narrow

omit place in
/-- Along an axis with a single point there is no flux. -/
theorem carry_single (holds : m.Holds f) (shaped : v.extents = f.extents) (known : method ∈ o.fluxMethods)
    (reach : axis = .z ∨ (method.fluxReach : Int) ≤ m.guards axis) (single : m.axisSize axis = 1) {k : Kernel ℝ}
    (made : Kernel.of? ⟨.flux, o.staggered⟩ method = some k) {x y z : Int} (has : f.HasPoint x y z) :
    k.carry o (v.along axis x y z) (f.along axis x y z) (axis.coordinate x y z) = 0 := by
  have positive : 1 ≤ method.fluxReach := by
    rw [Method.fluxReach]
    split <;> decide
  obtain ⟨-, -, nz⟩ := holds.sizes
  cases axis with
  | x =>
    have wide := reach.resolve_left (by decide)
    obtain ⟨left, some_, right⟩ := holds.columns
    simp only [guards, axisSize] at wide single
    omega
  | y =>
    have tall := reach.resolve_left (by decide)
    obtain ⟨bottom, some_, top⟩ := holds.rows
    simp only [guards, axisSize] at tall single
    omega
  | z =>
    change m.localNz = 1 at single
    obtain rfl : z = 0 := by
      have := has.2
      omega
    have one : f.nz = 1 := by omega
    have one' : v.nz = 1 := (Field.sizes_congr shaped).2.2.trans one
    have around := Exact.sum_carry_around (n := 1) (v := v.along .z x y 0) (f := f.along .z x y 0) made known
      (fun i => by simp only [Field.along, one', Nat.cast_one, Int.emod_one])
      (fun i => by simp only [Field.along, one, Nat.cast_one, Int.emod_one])
    rwa [Finset.sum_range_one] at around

/-- A flux along an axis, point by point. -/
theorem flow_flux (holds : m.Holds f) (shaped : v.extents = f.extents) (fits : v.Fits) (lies : m.Lies axis v f o)
    (own : place.orElse f.loc = .real f.loc) (known : method ∈ o.fluxMethods)
    (reach : axis = .z ∨ (method.fluxReach : Int) ≤ m.guards axis) :
    ∃ k d, Kernel.of? ⟨.flux, o.staggered⟩ method = some k ∧ (axis = .z ∨ (k.width : Int) ≤ m.guards axis) ∧
      m.flow axis .flux v f place method = .ok d ∧ Field.Alike f d ∧ ∀ x y z, f.HasPoint x y z →
        (m.Evaluates axis false x y → d.value x y z =
          k.carry o (v.along axis x y z) (f.along axis x y z) (axis.coordinate x y z)) ∧
        (¬ m.Evaluates axis false x y → d.value x y z = 0) := by
  obtain ⟨k, found, made, whole⟩ := kernel_flux known reach
  have planned := flowPlan_lies lies own
  rw [flow_bind shaped, planned]
  by_cases single : m.axisSize axis = 1
  · refine ⟨k, f.zeroLike, made, (kernel_ok found).2.2, if_pos single, Field.alike_zeroLike f, fun x y z has => ?_⟩
    rw [Field.value_zeroLike holds.fits has, carry_single holds shaped known reach single made has, Exact.zero_eq]
    exact ⟨fun _ => rfl, fun _ => rfl⟩
  · obtain ⟨d, computed, alike, values⟩ := applyFlow_values holds.bears shaped fits found rfl whole o
    refine ⟨k, d, made, (kernel_ok found).2.2, ?_, alike, fun x y z has => ⟨fun evaluated => ?_, fun idle => ?_⟩⟩
    · change (if m.axisSize axis = 1 then _ else _) = Except.ok d
      rw [if_neg single, found]
      change (if k.isSplit = true then _ else _) = Except.ok d
      rw [if_neg (Bool.eq_false_iff.mp whole)]
      exact computed
    · rw [values x y z has, if_pos evaluated]
    · rw [values x y z has, if_neg idle, Exact.zero_eq]

end Mesh

/-- The values of a field on all ranks add up to nothing on every line along an axis that has no end: on the rows of a
grid without boundary in x, on closed field lines in y through any column of a block, and on the lines in z of every
column. -/
def GridShape.Balanced (g : GridShape ℝ) (count : Nat) (meshes : Nat → Mesh ℝ) (d : Nat → Field ℝ) : Axis → Prop
  | .x => g.periodicX = true → ∀ row z, 0 ≤ row → row < g.ny → 0 ≤ z → z < g.nz →
    interiorSum count meshes (fun i x y => (d i).value x y z) (fun p => p.2 = row) = 0
  | .y => ∀ i < count, ∀ x row z, 0 ≤ x → x < (meshes i).localNx → 0 ≤ row → row < g.ny →
    g.topology.isPeriodic ((meshes i).globalX x) row = true → 0 ≤ z → z < g.nz →
    rowSum count meshes (meshes i).pex (fun j y => (d j).value x y z)
      (g.topology.OnLine (decide ((meshes i).globalX x < g.topology.separatrix)) row) = 0
  | .z => ∀ i < count, ∀ x y, (d i).HasColumn x y → ∑ z ∈ Finset.range (d i).nz, (d i).value x y z = 0

section Lines

variable {l : Layout ℝ} {meshes : Nat → Mesh ℝ} {f f' : Nat → Field ℝ}
  (given : ∀ i < l.count, l.Assigns i (meshes i)) (room : ∀ i < l.count, (meshes i).HasRoom)
  (shaped : ∀ i < l.count, (f i).extents = (meshes i).extents) (filled : Filled l.count meshes f f')
  {i : Nat} (inside : i < l.count) {x y z : Int}
include given room shaped filled inside

/-- Along x a filled field runs on around the grid. -/
theorem along_around {data : Int × Int × Int → ℝ} (sampled : ∀ i < l.count, (meshes i).SamplesInterior data (f i))
    (periodic : l.shape.periodicX = true) (interior : (meshes i).isInterior x y = true) (point : 0 ≤ z ∧ z < l.shape.nz)
    {j t : Int} (near : -(l.shape.mxg : Int) ≤ j ∧ j ≤ l.shape.mxg) (here : (meshes i).globalX x = l.shape.mxg + t) :
    (f' i).along .x x y z (x + j) = data (l.shape.mxg + (t + j) % l.shape.mx, (meshes i).globalY y, z) := by
  have words := Layout.inWords_of_room (given i inside) (room i inside)
  have own := (Layout.isInterior_iff words (given i inside)).mp interior
  have guards := l.guards
  have has : (f i).HasPoint (x + j) y z := by
    rw [hasPoint_iff given room shaped inside]
    omega
  rw [Layout.globalX_interior words (given i inside) interior] at here
  have moved : x + j + l.left i - l.shape.mxg = t + j := by omega
  rw [Field.along, value_around given room shaped filled sampled inside periodic has own.2.1 own.2.2, moved]

/-- Along a closed field line a filled field runs on around the line, in every column of the block. -/
theorem along_closed (straight : l.shape.twistShift = false) (bounded : l.shape.topology.separatrix < Text.wordEnd)
    (column : 0 ≤ x ∧ x < l.breadth i + 2 * l.shape.mxg) (point : 0 ≤ z ∧ z < l.shape.nz) {row : Int} (low : 0 ≤ row)
    (high : row < l.shape.ny) (closed : l.shape.topology.isPeriodic ((meshes i).globalX x) row = true) {rows : Int → ℝ}
    (known : ∀ j < l.count, (meshes j).pex = (meshes i).pex → ∀ y, (meshes j).ystart ≤ y → y ≤ (meshes j).yend →
      (f' j).value x y z = rows ((meshes j).globalY y))
    (own : l.shape.myg ≤ y ∧ y < l.shape.myg + l.height i) {t : Int}
    (within : 0 ≤ t ∧ t < (l.shape.track ((meshes i).globalX x) row).length)
    (here : (l.shape.track ((meshes i).globalX x) row).row t = (meshes i).globalY y) {j : Int}
    (near : -(l.shape.myg : Int) ≤ j ∧ j ≤ l.shape.myg) :
    (f' i).along .y x y z (y + j) = rows ((l.shape.track ((meshes i).globalX x) row).row
      ((t + j) % (l.shape.track ((meshes i).globalX x) row).length)) := by
  have words := Layout.inWords_of_room (given i inside) (room i inside)
  have word := separatrix_word given inside words bounded column closed
  -- the walk of that many steps up or down
  have walked := GridShape.walk_closed l.proper low high closed (decide (0 ≤ j)) t j.natAbs
  rw [Int.emod_eq_of_lt within.1 within.2, here] at walked
  have moved (k : Int) : Topology.ahead (decide (0 ≤ j)) k j.natAbs = k + j := by
    by_cases up : 0 ≤ j <;> simp only [Topology.ahead, up, decide_true, decide_false, Bool.false_eq_true, ↓reduceIte] <;> omega
  obtain ⟨j', inside', y', same, rows', global, value⟩ :=
    walked_origin given room shaped filled inside straight word column own point (by omega) walked
  rw [moved] at value global
  rw [Field.along, value, known j' inside' same y' rows'.1 rows'.2, global]

end Lines

section Flux

variable {l : Layout ℝ} {meshes : Nat → Mesh ℝ} {v v' f f' : Nat → Field ℝ}
  (given : ∀ i < l.count, l.Assigns i (meshes i)) (room : ∀ i < l.count, (meshes i).HasRoom)
  (shapedV : ∀ i < l.count, (v i).extents = (meshes i).extents)
  (shapedF : ∀ i < l.count, (f i).extents = (meshes i).extents)
  (filledV : Filled l.count meshes v v') (filledF : Filled l.count meshes f f')
  {o : Offset} {method : Method} {k : Kernel ℝ} {d : Nat → Field ℝ}
  (made : Kernel.of? ⟨.flux, o.staggered⟩ method = some k) (known : method ∈ o.fluxMethods)
include given room shapedV shapedF filledV filledF made known

/-- On a grid without boundary in x the fluxes along x of all ranks are those of one line for every row. -/
theorem balanced_x (reach : ∀ i < l.count, (k.width : Int) ≤ l.shape.mxg)
    (values : ∀ i < l.count, ∀ x y z, (meshes i).isInterior x y = true → 0 ≤ z → z < l.shape.nz →
      (d i).value x y z = k.carry o ((v' i).along .x x y z) ((f' i).along .x x y z) x) :
    l.shape.Balanced l.count meshes d .x := by
  intro periodic row z low high first last
  rcases Nat.eq_zero_or_pos l.count with none_ | some_
  · rw [interiorSum, none_, Finset.sum_range_zero]
  have words := Layout.inWords_of_room (given 0 some_) (room 0 some_)
  obtain ⟨dataV, sampledV⟩ := Layout.exists_data words given v
  obtain ⟨dataF, sampledF⟩ := Layout.exists_data words given f
  have wide : 0 ≤ l.shape.mx := by
    have := l.columns_nonneg
    rwa [l.allColumns] at this
  have long : (l.shape.mx.toNat : Int) = l.shape.mx := Int.toNat_of_nonneg wide
  let line (data : Int × Int × Int → ℝ) (t : Int) := data (l.shape.mxg + t % l.shape.mx, row, z)
  have again (data : Int × Int × Int → ℝ) (t : Int) : line data (t + l.shape.mx.toNat) = line data t := by
    simp only [line, long, Int.add_emod_right]
  rw [← Exact.sum_carry_around made known (again dataV) (again dataF)]
  refine interiorSum_places words given (fun t => (l.shape.mxg + (t : Int), row))
    (fun a insideA b insideB same => ?_) (fun t inside => ?_) (fun p columns rows => ?_)
    fun i inside x y interior t within same => ?_
  · simp only [Prod.mk.injEq, and_true] at same
    omega
  · simp only
    omega
  · constructor
    · intro same
      exact ⟨(p.1 - l.shape.mxg).toNat, by omega, Prod.ext (by simp only; omega) same.symm⟩
    · intro found
      obtain ⟨t, inside, rfl⟩ := found
      rfl
  · obtain ⟨column, own⟩ := Prod.mk.inj same
    rw [values i inside x y z interior first last]
    exact Kernel.carry_shifted
      (fun j low high => by
        have most := reach i inside
        rw [along_around given room shapedF filledF inside sampledF periodic interior ⟨first, last⟩ (by omega) column.symm,
          ← own])
      (fun j low high => by
        have most := reach i inside
        rw [along_around given room shapedV filledV inside sampledV periodic interior ⟨first, last⟩ (by omega) column.symm,
          ← own])

/-- On a closed field line the fluxes along y of all ranks are those of one line. -/
theorem balanced_y (straight : l.shape.twistShift = false) (bounded : l.shape.topology.separatrix < Text.wordEnd)
    (reach : ∀ i < l.count, (k.width : Int) ≤ l.shape.myg)
    (values : ∀ i < l.count, ∀ x y z, (f i).HasPoint x y z → (meshes i).ystart ≤ y → y ≤ (meshes i).yend →
      (d i).value x y z = k.carry o ((v' i).along .y x y z) ((f' i).along .y x y z) y) :
    l.shape.Balanced l.count meshes d .y := by
  intro i inside x row z left right low high closed first last
  have words := Layout.inWords_of_room (given i inside) (room i inside)
  have parts := l.column_lt i
  obtain ⟨rowsV, knownV⟩ := Layout.exists_rows words given parts fun j y => (v' j).value x y z
  obtain ⟨rowsF, knownF⟩ := Layout.exists_rows words given parts fun j y => (f' j).value x y z
  have long := GridShape.track_length (g := l.shape) l.proper ((meshes i).globalX x) low high
  let line (rows : Int → ℝ) (t : Int) := rows ((l.shape.track ((meshes i).globalX x) row).row
    (t % (l.shape.track ((meshes i).globalX x) row).length))
  have length : ((l.shape.track ((meshes i).globalX x) row).length.toNat : Int) =
      (l.shape.track ((meshes i).globalX x) row).length := Int.toNat_of_nonneg long.le
  have again (rows : Int → ℝ) (t : Int) :
      line rows (t + (l.shape.track ((meshes i).globalX x) row).length.toNat) = line rows t := by
    simp only [line, length, Int.add_emod_right]
  rw [← Exact.sum_carry_around made known (again rowsV) (again rowsF), Layout.pex_eq (given i inside)]
  refine rowSum_track words given parts low high (fun t => k.carry o (line rowsV) (line rowsF) t)
    fun j inside' same y start stop t least most here => ?_
  -- the same column of the grid on the other rank
  have column : l.column j = l.column i := by exact_mod_cast (Layout.pex_eq (given j inside')).symm.trans same
  have aside : l.left j = l.left i ∧ l.breadth j = l.breadth i := by simp only [Layout.left, Layout.breadth, column, and_self]
  rw [Layout.localNx_eq words (given i inside)] at right
  have range : 0 ≤ x ∧ x < l.breadth j + 2 * l.shape.mxg := ⟨left, aside.2 ▸ right⟩
  have global : (meshes j).globalX x = (meshes i).globalX x := by
    rw [Layout.globalX_eq words (given i inside) left (by rwa [Layout.localNx_eq words (given i inside)]),
      Layout.globalX_eq words (given j inside') left (by rw [Layout.localNx_eq words (given j inside')]; exact range.2), aside.1]
  have top := Layout.yend_eq words (given j inside')
  have bottom := (Layout.start_eq (given j inside')).2
  have guards := l.guards
  have reached := reach j inside'
  have has : (f j).HasPoint x y z := by
    rw [hasPoint_iff given room shapedF inside']
    omega
  have own : l.shape.myg ≤ y ∧ y < l.shape.myg + l.height j := by omega
  have met {g g' : Nat → Field ℝ} (shaped : ∀ i < l.count, (g i).extents = (meshes i).extents)
      (filled : Filled l.count meshes g g') {rows : Int → ℝ}
      (known : ∀ i' < l.count, (meshes i').pex = (l.column i : Nat) → ∀ y, (meshes i').ystart ≤ y →
        y ≤ (meshes i').yend → (g' i').value x y z = rows ((meshes i').globalY y))
      {s : Int} (near : -(k.width : Int) ≤ s ∧ s ≤ k.width) : (g' j).along .y x y z (y + s) = line rows (t + s) := by
    have carried := along_closed given room shaped filled inside' straight bounded range ⟨first, last⟩ low high
      (global.symm ▸ closed) (fun i' within same' => known i' within (same'.trans same)) own (t := t) (j := s)
      (by rw [global]; exact ⟨least, most⟩) (by rw [global]; exact here) (by omega)
    rwa [global] at carried
  rw [values j inside' x y z has start stop]
  exact Kernel.carry_shifted (fun s low' high' => met shapedF filledF knownF ⟨low', high'⟩)
    (fun s low' high' => met shapedV filledV knownV ⟨low', high'⟩)

/-- Along every axis the fluxes of all ranks are balanced. -/
theorem balanced_of_flux {axis : Axis} (straight : l.shape.twistShift = false)
    (bounded : l.shape.topology.separatrix < Text.wordEnd)
    (reach : ∀ i < l.count, axis = .z ∨ (k.width : Int) ≤ (meshes i).guards axis)
    (alike : ∀ i < l.count, Field.Alike (f' i) (d i))
    (values : ∀ i < l.count, ∀ x y z, (f' i).HasPoint x y z →
      ((meshes i).Evaluates axis false x y → (d i).value x y z =
        k.carry o ((v' i).along axis x y z) ((f' i).along axis x y z) (axis.coordinate x y z)) ∧
      (¬ (meshes i).Evaluates axis false x y → (d i).value x y z = 0)) :
    l.shape.Balanced l.count meshes d axis := by
  have holds (i : Nat) (inside : i < l.count) : (meshes i).Holds (f' i) :=
    (Layout.holds (given i inside) (room i inside) (shapedF i inside)).of_alike (filledF.alike i inside)
  cases axis with
  | x =>
    refine balanced_x given room shapedV shapedF filledV filledF made known (fun i inside => ?_)
      fun i inside x y z interior low high => ?_
    · have most := (reach i inside).resolve_left (by decide)
      rwa [Mesh.guards, Layout.shape_eq (given i inside)] at most
    · obtain ⟨has, evaluated⟩ :=
        (holds i inside).interior_point interior low (Layout.localNz_eq (given i inside) ▸ high)
      exact (values i inside x y z has).1 (evaluated .x false)
  | y =>
    refine balanced_y given room shapedV shapedF filledV filledF made known straight bounded (fun i inside => ?_)
      fun i inside x y z has low high => ?_
    · have most := (reach i inside).resolve_left (by decide)
      rwa [Mesh.guards, Layout.shape_eq (given i inside)] at most
    · exact (values i inside x y z ((filledF.alike i inside).hasPoint.mpr has)).1 ⟨low, high⟩
  | z =>
    intro i inside x y column
    have column' := (alike i inside).hasColumn.mp column
    have depth : (v' i).nz = (f' i).nz := by
      rw [(filledV.alike i inside).nz, (filledF.alike i inside).nz]
      exact (Field.sizes_congr ((shapedV i inside).trans (shapedF i inside).symm)).2.2
    have has (z : Nat) (within : z ∈ Finset.range (f' i).nz) : (f' i).HasPoint x y z :=
      ⟨column', by omega, by exact_mod_cast Finset.mem_range.mp within⟩
    rw [(alike i inside).nz]
    by_cases evaluated : (meshes i).Evaluates .z false x y
    · rw [← Exact.sum_carry_around (n := (f' i).nz) (v := (v' i).along .z x y 0) (f := (f' i).along .z x y 0) made known
        (fun t => by simp only [Field.along, depth, Int.add_emod_right])
        (fun t => by simp only [Field.along, Int.add_emod_right])]
      exact Finset.sum_congr rfl fun z within => (values i inside x y z (has z within)).1 evaluated
    · exact Finset.sum_eq_zero fun z within => (values i inside x y z (has z within)).2 evaluated

end Flux

theorem Mesh.Lies.of_alike {m : Mesh ℝ} {axis : Axis} {v f v' f' : Field ℝ} {o : Offset} (lies : m.Lies axis v f o)
    (alikeV : Field.Alike v v') (alikeF : Field.Alike f f') : m.Lies axis v' f' o := by
  cases o <;> simpa only [Mesh.Lies, alikeV.loc, alikeF.loc] using lies

/-- A program of calls that fills the guard cells of a field. -/
def Action.Fills (actions : List Action) (n : Nat) : Prop := ∃ e ∈ Action.exchanges actions, n ∈ e.1 ∧ e.2 = false

/-- Flux derivatives conserve. All ranks have loaded a grid and fill the guard cells of their fields, in calls of any
order. The fluxes of any velocity and any field that have been filled can then be taken by every method that works with
faces and fits into the guard cells, with the velocity at the place of the field or half a cell off on either side. On
every line without an end the fluxes of all ranks add up to nothing. -/
theorem flux_derivatives_conserve (source : GridSource ℝ) {options : Options ℝ} {g : GridShape ℝ} {messages : List String}
    (read : GridShape.read source options = .ok (g, messages)) (straight : options.flag "TwistShift" false = false)
    (warnings : Nat → List String) {count size : Nat} {meshes : Nat → Mesh ℝ} {ranks : Nat → Rank ℝ}
    {refs : Nat → Nat → FieldRef} {before : Nat → Nat → Field ℝ}
    (loaded : ∀ i < count, Mesh.load source options ⟨i, count⟩ = .ok (meshes i, warnings i))
    (room : ∀ i < count, (meshes i).HasRoom)
    (calls : Collective count meshes ranks (fun i => (List.range size).map (refs i)) size before)
    (distinct : ∀ i < count, ((List.range size).map (refs i)).Nodup) {actions : List Action}
    (settled : Action.Settled actions) (known : ∀ e ∈ Action.exchanges actions, ∀ n ∈ e.1, n < size) :
    ∃ (stores : Nat → Store ℝ) (after : Nat → Nat → Field ℝ),
      EndsIn (launch count ranks refs actions) (fun i => (.ok (), { ranks i with store := stores i })) ∧
      (∀ i < count, Stored (refs i) size (after i) (ranks i).store (stores i)) ∧
      ∀ v < size, ∀ n < size, Action.Fills actions v → Action.Fills actions n → ∀ axis o method place,
        method ∈ Offset.fluxMethods o → (∀ i < count, (meshes i).Lies axis (before i v) (before i n) o) →
        (∀ i < count, place.orElse (before i n).loc = .real (before i n).loc) →
        (∀ i < count, axis = .z ∨ (method.fluxReach : Int) ≤ (meshes i).guards axis) →
        ∃ d : Nat → Field ℝ,
          (∀ i < count, (meshes i).flow axis .flux (after i v) (after i n) place method = .ok (d i)) ∧
          g.Balanced count meshes d axis := by
  rcases Nat.eq_zero_or_pos count with rfl | some_
  · refine ⟨fun i => (ranks i).store, before, endsIn_empty _ rfl rfl, fun i inside => absurd inside (Nat.not_lt_zero i), ?_⟩
    intro v _ n _ _ _ axis _ _ _ _ _ _ _
    refine ⟨fun i => before i n, fun i inside => absurd inside (Nat.not_lt_zero i), ?_⟩
    cases axis with
    | x => exact fun _ _ _ _ _ _ _ => rfl
    | y => exact fun i inside => absurd inside (Nat.not_lt_zero i)
    | z => exact fun i inside => absurd inside (Nat.not_lt_zero i)
  obtain ⟨l, rfl, assigned⟩ := Layout.of_load (loaded 0 some_)
  have given (i : Nat) (inside : i < l.count) := assigned i inside _ _ (loaded i inside)
  obtain rfl : g = l.shape := by
    obtain ⟨⟨_, own⟩, -⟩ := Mesh.load_reads (loaded 0 some_)
    rw [Layout.shape_eq (given 0 some_), read] at own
    exact (Prod.mk.inj (Except.ok.inj own)).1
  obtain ⟨state, crew, raw, held⟩ := calls.crew given room distinct
  obtain ⟨stores, ended, stored⟩ := crew.ends calls.own held settled known
  refine ⟨stores, fun i n => state n (fillAfter (Action.exchanges actions) n) i, ended, stored, ?_⟩
  intro v among n within fillsV fillsN axis o method place chosen lies own reach
  have filled (n : Nat) (within : n < size) (fills : Action.Fills actions n) :
      Filled l.count meshes (fun i => before i n) fun i => state n (fillAfter (Action.exchanges actions) n) i := by
    rw [fillAfter_eq_all.mpr fills]
    have whole := (crew.fillings n within).filled given room (crew.shaped n within)
    rwa [show state n .raw = fun i => before i n from funext (raw n within)] at whole
  have shaped (n : Nat) (within : n < size) (i : Nat) (inside : i < l.count) := calls.shaped i inside n within
  have filledV := filled v among fillsV
  have filledN := filled n within fillsN
  have flows (i : Nat) (inside : i < l.count) :=
    have alikeV := filledV.alike i inside
    have alikeN := filledN.alike i inside
    have holds := Layout.holds (given i inside) (room i inside) (shaped n within i inside)
    have holdsV := Layout.holds (given i inside) (room i inside) (shaped v among i inside)
    Mesh.flow_flux (holds.of_alike alikeN)
      ((alikeV.extents.trans (shaped v among i inside)).trans (alikeN.extents.trans (shaped n within i inside)).symm)
      (alikeV.fits holdsV.fits) ((lies i inside).of_alike alikeV alikeN) (alikeN.loc.symm ▸ own i inside) chosen
      (reach i inside)
  obtain ⟨k, -, made, -⟩ := flows 0 some_
  have : Nonempty (Field ℝ) := ⟨before 0 n⟩
  have : Nonempty (Kernel ℝ) := ⟨k⟩
  choose! kernels d made' fits computed alike values using flows
  have same (i : Nat) (inside : i < l.count) : kernels i = k := Option.some.inj ((made' i inside).symm.trans made)
  refine ⟨d, computed, balanced_of_flux given room (shaped v among) (shaped n within) filledV filledN made chosen ?_
    (GridShape.read_separatrix read).1 (fun i inside => same i inside ▸ fits i inside) alike
    fun i inside => same i inside ▸ values i inside⟩
  exact (GridShape.twistShift_eq read).trans straight

/-! A grid without boundaries in x and y, on two ranks above one another. The velocity is half a cell off the field. -/

noncomputable def ringOptions : Options ℝ :=
  ⟨[("nx", .whole 4), ("ny", .whole 2), ("nz", .whole 2), ("mxg", .whole 1), ("myg", .whole 1), ("nxpe", .whole 1),
    ("periodicx", .flag true), ("staggergrids", .flag true)]⟩

noncomputable def ringShape : GridShape ℝ :=
  { nx := 4, ny := 2, nz := 2, mxg := 1, myg := 1, zMin := Scalar.ofInt 0, zMax := Scalar.ofInt 1
    topology := .rectangular 2 true, shiftAngle := none, twistShift := false, periodicX := true, staggerGrids := true
    shiftXderivs := false, incIntShear := false }

theorem asked_ring : GridShape.Asked ringOptions ringShape where
  sizes := by decide +kernel
  guards := by decide +kernel
  room := by decide +kernel
  range := ⟨Options.real_unset (by decide +kernel) _, Options.real_unset (by decide +kernel) _⟩
  extent := Exact.default_range
  separatrix := by decide +kernel
  legs := by decide +kernel
  topology := by decide +kernel
  flags := by decide +kernel
  straight := ⟨rfl, rfl⟩

theorem read_ring : GridShape.read GridSource.empty ringOptions = .ok (ringShape, []) := asked_ring.read fun _ _ => rfl

theorem plain_ring : ringOptions.Plain := by
  intro entry member inner same
  simp only [ringOptions, List.mem_cons, List.not_mem_nil, or_false] at member
  rcases member with rfl | rfl | rfl | rfl | rfl | rfl | rfl | rfl <;> cases same

theorem load_ring (i : Nat) (inside : i < 2) :
    ∃ m, Mesh.load GridSource.empty ringOptions ⟨i, 2⟩ = .ok (m, []) ∧ m.HasRoom ∧ m.shape = ringShape := by
  have asked : ringOptions.isSet "NXPE" = true ∧ ringOptions.whole "NXPE" 0 = 1 ∧
      ringOptions.isSet "paralleltransform" = false := by decide +kernel
  have settled : ringShape.settleSplit ringOptions 2 = .ok 1 := by
    simp only [GridShape.settleSplit, asked.1, asked.2.1]
    rfl
  interval_cases i
  all_goals
    refine ⟨_, Mesh.load_of_steps read_ring settled rfl rfl rfl rfl rfl rfl (Defaults.read_plain plain_ring) rfl
      (transformName_unset asked.2.2),
      ?_, rfl⟩
    · decide

/-- A velocity on the lower faces in x and a field at the centres. -/
noncomputable def ringData (n : Nat) : GlobalData ℝ :=
  ⟨if n = 0 then .xlow else .centre, false, fun column row z => ((column - 2 * row + n * z : Int) : ℝ)⟩

theorem flux_derivatives_conserve_ring : ∃ d : Decomposition GridSource.empty ringOptions 2 ringData, d.count = 2 ∧
    ∃ (stores : Nat → Store ℝ) (after : Nat → Nat → Field ℝ) (fluxes : Nat → Field ℝ),
      EndsIn (launch d.count d.ranks d.refs [.communicate [0, 1] false])
        (fun i => (.ok (), { d.ranks i with store := stores i })) ∧
      (∀ i < d.count, Stored (d.refs i) 2 (after i) (d.ranks i).store (stores i)) ∧
      (∀ i < d.count, (d.meshes i).flow .x .flux (after i 0) (after i 1) .inherit .u1 = .ok (fluxes i)) ∧
      ∀ row z, 0 ≤ row → row < 2 → 0 ≤ z → z < 2 →
        interiorSum d.count d.meshes (fun i x y => (fluxes i).value x y z) (fun p => p.2 = row) = 0 := by
  have : Nonempty (Mesh ℝ) := ⟨(load_ring 0 (by decide)).choose⟩
  choose! meshes loaded room shape using load_ring
  obtain ⟨d, two, rfl⟩ := Decomposition.exists_of_load 2 ringData (by decide : 0 < 2)
    (fun i inside => ⟨[], loaded i inside⟩) room
  refine ⟨d, two, ?_⟩
  obtain ⟨stores, after, ended, stored, balanced⟩ := flux_derivatives_conserve GridSource.empty read_ring
    (by decide +kernel : ringOptions.flag "TwistShift" false = false) (fun _ => [])
    (fun i inside => by rw [two] at inside ⊢; exact loaded i inside) d.room d.calls d.distinct
    (Action.settled_communicate [0, 1] false) fun e member n among => by
      obtain rfl := List.mem_singleton.mp member
      simp only [List.mem_cons, List.not_mem_nil, or_false] at among
      omega
  have fills (n : Nat) (within : n ∈ [0, 1]) : Action.Fills [.communicate [0, 1] false] n :=
    ⟨_, List.mem_singleton_self _, within, rfl⟩
  obtain ⟨fluxes, computed, sums⟩ := balanced 0 (by decide) 1 (by decide) (fills 0 (by decide)) (fills 1 (by decide)) .x
    .toCentre .u1 .inherit (by decide)
    (fun i inside => by
      have within : i < 2 := two ▸ inside
      refine ⟨by rw [shape i within]; rfl, ?_, ?_⟩
      · exact (d.located i inside 0 (by decide)).1
      · exact (d.located i inside 1 (by decide)).1)
    (fun i inside => rfl)
    (fun i inside => .inr (by rw [Mesh.guards, shape i (two ▸ inside)]; decide))
  exact ⟨stores, after, fluxes, ended, stored, computed, fun row z low high first last => sums rfl row z low high first last⟩

end HaloMesh
