import HaloMesh.Proofs.FieldPoints
import HaloMesh.Proofs.HaloSides

/-! Derivatives point by point. Each value of a derivative is worked out from the values on the line through its
point, and nothing else of the field matters to it. -/

namespace HaloMesh

variable {α : Type}

def Axis.coordinate (axis : Axis) (x y z : Int) : Int :=
  match axis with
  | .x => x
  | .y => y
  | .z => z

namespace Field

/-- Where point zero of the line through a point stands in the storage. -/
def lineBase (f : Field α) (axis : Axis) (x y z : Int) : Int :=
  match axis with
  | .x => z + f.nz * y
  | .y => z + f.nz * f.ny * x
  | .z => f.nz * (y + f.ny * x)

def reader (f : Field α) (axis : Axis) : LineReader := ⟨f.stride axis, if axis = .z then some (f.axisSize axis) else none⟩

/-- Whether a line has a point `j`; z lines wrap. -/
def Reads (f : Field α) (axis : Axis) (j : Int) : Prop := axis = .z ∨ 0 ≤ j ∧ j < f.axisSize axis

variable {f : Field α} {axis : Axis} {x y z j : Int}

theorem lineBase_place (f : Field α) (axis : Axis) (x y z : Int) :
    f.lineBase axis x y z + axis.coordinate x y z * f.stride axis = f.place x y z := by
  cases axis <;> simp only [lineBase, Axis.coordinate, stride, place] <;> ring

theorem exists_of_mem_lineBases {base : Int} (member : base ∈ f.lineBases axis) {i : Int} (low : 0 ≤ i)
    (high : i < f.axisSize axis) :
    ∃ x y z, f.HasPoint x y z ∧ base = f.lineBase axis x y z ∧ i = axis.coordinate x y z := by
  cases axis with
  | x =>
    simp only [lineBases, List.mem_flatMap, List.mem_map, List.mem_range] at member
    obtain ⟨y, inY, z, inZ, rfl⟩ := member
    exact ⟨i, y, z, ⟨⟨⟨low, high⟩, by omega, by omega⟩, by omega, by omega⟩, rfl, rfl⟩
  | y =>
    simp only [lineBases, List.mem_flatMap, List.mem_map, List.mem_range] at member
    obtain ⟨x, inX, z, inZ, rfl⟩ := member
    exact ⟨x, i, z, ⟨⟨⟨by omega, by omega⟩, low, high⟩, by omega, by omega⟩, rfl, rfl⟩
  | z =>
    simp only [lineBases, List.mem_flatMap, List.mem_map, List.mem_range] at member
    obtain ⟨x, inX, y, inY, rfl⟩ := member
    exact ⟨x, y, i, ⟨⟨⟨by omega, by omega⟩, by omega, by omega⟩, low, high⟩, rfl, rfl⟩

theorem lineBase_mem (axis : Axis) (has : f.HasPoint x y z) : f.lineBase axis x y z ∈ f.lineBases axis := by
  obtain ⟨⟨⟨lowX, highX⟩, lowY, highY⟩, lowZ, highZ⟩ := has
  obtain ⟨a, rfl⟩ := Int.eq_ofNat_of_zero_le lowX
  obtain ⟨b, rfl⟩ := Int.eq_ofNat_of_zero_le lowY
  obtain ⟨c, rfl⟩ := Int.eq_ofNat_of_zero_le lowZ
  cases axis <;> simp only [lineBases, lineBase, List.mem_flatMap, List.mem_map, List.mem_range]
  · exact ⟨b, by omega, c, by omega, rfl⟩
  · exact ⟨a, by omega, c, by omega, rfl⟩
  · exact ⟨a, by omega, b, by omega, rfl⟩

/-- The point that index `j` of the line through a point stands for. -/
def pointAlong (f : Field α) (axis : Axis) (x y z j : Int) : Int × Int × Int :=
  match axis with
  | .x => (j, y, z)
  | .y => (x, j, z)
  | .z => (x, y, j % f.nz)

theorem position_along (has : f.HasPoint x y z) (within : f.Reads axis j) :
    f.HasPoint (f.pointAlong axis x y z j).1 (f.pointAlong axis x y z j).2.1 (f.pointAlong axis x y z j).2.2 ∧
      (f.reader axis).position (f.lineBase axis x y z) j =
        f.place (f.pointAlong axis x y z j).1 (f.pointAlong axis x y z j).2.1 (f.pointAlong axis x y z j).2.2 := by
  obtain ⟨⟨inX, inY⟩, inZ⟩ := has
  cases axis with
  | x => exact ⟨⟨⟨within.resolve_left (by decide), inY⟩, inZ⟩, f.lineBase_place .x j y z⟩
  | y => exact ⟨⟨⟨inX, within.resolve_left (by decide)⟩, inZ⟩, f.lineBase_place .y x j z⟩
  | z =>
    have wrapped : 0 ≤ j % f.nz ∧ j % f.nz < f.nz := ⟨Int.emod_nonneg _ (by omega), Int.emod_lt_of_pos _ (by omega)⟩
    exact ⟨⟨⟨inX, inY⟩, wrapped⟩, f.lineBase_place .z x y (j % f.nz)⟩

variable [Scalar α]

/-- The values on the line through a point. -/
def along (f : Field α) (axis : Axis) (x y z j : Int) : α :=
  match axis with
  | .x => f.value j y z
  | .y => f.value x j z
  | .z => f.value x y (j % f.nz)

theorem read_along (fits : f.Fits) (has : f.HasPoint x y z) (within : f.Reads axis j) :
    (f.reader axis).read f.data (f.lineBase axis x y z) j = .ok (f.along axis x y z j) := by
  obtain ⟨there, place⟩ := position_along has within
  rw [LineReader.read, place, elementAt_place fits there]
  cases axis <;> rfl

end Field

/-- A sweep over lines along an axis that go through all points with a property, and through no others. -/
theorem sweep_along {f : Field α} {axis : Axis} {value : Int → Int → Outcome (Option α)}
    {new : Int → Int → Int → Option α} {lines : List LineSpan} {data : Array α} (Covered : Int → Int → Int → Prop)
    (fits : f.Fits) (size : data.size = f.data.size)
    (only : ∀ l ∈ lines, ∀ i, l.lo ≤ i → i ≤ l.hi → ∃ x y z, f.HasPoint x y z ∧ Covered x y z ∧
      l.base = f.lineBase axis x y z ∧ i = axis.coordinate x y z)
    (all : ∀ x y z, f.HasPoint x y z → Covered x y z → ∃ l ∈ lines, l.base = f.lineBase axis x y z ∧
      l.lo ≤ axis.coordinate x y z ∧ axis.coordinate x y z ≤ l.hi)
    (known : ∀ x y z, f.HasPoint x y z → Covered x y z →
      value (f.lineBase axis x y z) (axis.coordinate x y z) = .ok (new x y z)) :
    ∃ data', sweep (f.stride axis) lines value data = .ok data' ∧ data'.size = f.data.size ∧
      ∀ x y z, f.HasPoint x y z →
        (Covered x y z → data'[(f.place x y z).toNat]? = (new x y z).or data[(f.place x y z).toNat]?) ∧
        (¬ Covered x y z → data'[(f.place x y z).toNat]? = data[(f.place x y z).toNat]?) := by
  have sweeps (l : LineSpan) (member : l ∈ lines) (i : Int) (low : l.lo ≤ i) (high : i ≤ l.hi) :
      SweepsPoint f (f.stride axis) value new (l.base, i) := by
    obtain ⟨x, y, z, has, covered, base, rfl⟩ := only l member i low high
    refine ⟨x, y, z, has, ?_, ?_⟩
    · rw [base, f.lineBase_place]
    · rw [base]
      exact known x y z has covered
  obtain ⟨data', swept, sizes, points⟩ := sweep_points fits size sweeps
  refine ⟨data', swept, sizes, fun x y z has => ⟨fun covered => ?_, fun uncovered => ?_⟩⟩
  · obtain ⟨l, member, base, low, high⟩ := all x y z has covered
    exact (points x y z has).1 ⟨l, member, _, low, high, by rw [base, f.lineBase_place]⟩
  · apply (points x y z has).2
    intro l member i low high same
    obtain ⟨x', y', z', has', covered, base, rfl⟩ := only l member i low high
    rw [base, f.lineBase_place] at same
    obtain ⟨rfl, rfl, rfl⟩ := Field.point_inj has has' same
    exact uncovered covered

namespace Mesh

/-- Whether a derivative is evaluated at the points of a column. -/
def Evaluates (m : Mesh α) (axis : Axis) (includeXGuards : Bool) (x y : Int) : Prop :=
  match axis with
  | .x => m.xstart ≤ x ∧ x ≤ m.xend
  | .y => m.ystart ≤ y ∧ y ≤ m.yend
  | .z => includeXGuards = true ∨ m.xstart ≤ x ∧ x ≤ m.xend

instance (m : Mesh α) (axis : Axis) (includeXGuards : Bool) (x y : Int) : Decidable (m.Evaluates axis includeXGuards x y) := by
  cases axis <;> unfold Evaluates <;> infer_instance

/-- A field with a value for every point of a block. The interior of the block lies within the guard cells, or its end is
beyond words and nothing is evaluated. -/
structure Bears (m : Mesh α) (f : Field α) : Prop where
  fits : f.Fits
  shaped : f.extents = m.extents
  guards : 0 ≤ m.shape.mxg ∧ 0 ≤ m.shape.myg
  columns : m.xstart = m.shape.mxg ∧ (m.xend < m.xstart ∨ m.xend + m.shape.mxg + 1 = m.localNx)
  rows : m.ystart = m.shape.myg ∧ (m.yend < m.ystart ∨ m.yend + m.shape.myg + 1 = m.localNy)
  points : 1 ≤ m.localNz

namespace Bears

variable {m : Mesh α} {f : Field α} {axis : Axis} {inc : Bool} {x y z : Int}

theorem sizes (bears : m.Bears f) : (f.nx : Int) = m.localNx ∧ (f.ny : Int) = m.localNy ∧ (f.nz : Int) = m.localNz := by
  have shaped := bears.shaped
  simp only [Field.extents, extents, Extents.mk.injEq] at shaped
  exact shaped

theorem axisSize_eq (bears : m.Bears f) (axis : Axis) : m.axisSize axis = f.axisSize axis := by
  obtain ⟨nx, ny, nz⟩ := bears.sizes
  cases axis
  · exact nx.symm
  · exact ny.symm
  · exact nz.symm

theorem lineReader_eq (bears : m.Bears f) (axis : Axis) : m.lineReader f axis = f.reader axis := by
  rw [lineReader, bears.axisSize_eq, Field.reader]

theorem only_evaluated (bears : m.Bears f) {l : LineSpan} (member : l ∈ m.evaluationLines f axis inc) {i : Int}
    (low : l.lo ≤ i) (high : i ≤ l.hi) : ∃ x y z, f.HasPoint x y z ∧ m.Evaluates axis inc x y ∧
      l.base = f.lineBase axis x y z ∧ i = axis.coordinate x y z := by
  obtain ⟨nx, ny, nz⟩ := bears.sizes
  obtain ⟨guardX, guardY⟩ := bears.guards
  obtain ⟨left, right⟩ := bears.columns
  obtain ⟨bottom, top⟩ := bears.rows
  cases axis with
  | x =>
    obtain ⟨base, among, rfl⟩ := List.mem_map.mp member
    have inside : 0 ≤ i ∧ i < f.axisSize .x := by
      simp only [Field.axisSize] at low high ⊢
      omega
    obtain ⟨x, y, z, has, base, rfl : i = x⟩ := Field.exists_of_mem_lineBases among inside.1 inside.2
    exact ⟨i, y, z, has, ⟨low, high⟩, base, rfl⟩
  | y =>
    obtain ⟨base, among, rfl⟩ := List.mem_map.mp member
    have inside : 0 ≤ i ∧ i < f.axisSize .y := by
      simp only [Field.axisSize] at low high ⊢
      omega
    obtain ⟨x, y, z, has, base, rfl : i = y⟩ := Field.exists_of_mem_lineBases among inside.1 inside.2
    exact ⟨x, i, z, has, ⟨low, high⟩, base, rfl⟩
  | z =>
    simp only [evaluationLines, List.mem_flatMap, List.mem_map, List.mem_range, Index.mem_span] at member
    obtain ⟨x, inX, y, inY, rfl⟩ := member
    refine ⟨x, y, i, ⟨⟨?_, by omega, by omega⟩, low, ?_⟩, ?_, rfl, rfl⟩
    · cases inc <;> simp only [Bool.false_eq_true, ↓reduceIte] at inX <;> omega
    · change i ≤ (f.nz : Int) - 1 at high
      omega
    · cases inc
      · exact .inr inX
      · exact .inl rfl

theorem all_evaluated (has : f.HasPoint x y z) (evaluated : m.Evaluates axis inc x y) :
    ∃ l ∈ m.evaluationLines f axis inc, l.base = f.lineBase axis x y z ∧ l.lo ≤ axis.coordinate x y z ∧
      axis.coordinate x y z ≤ l.hi := by
  cases axis with
  | x => exact ⟨_, List.mem_map_of_mem (Field.lineBase_mem .x has), rfl, evaluated⟩
  | y => exact ⟨_, List.mem_map_of_mem (Field.lineBase_mem .y has), rfl, evaluated⟩
  | z =>
    obtain ⟨⟨⟨lowX, highX⟩, lowY, highY⟩, lowZ, highZ⟩ := has
    obtain ⟨b, rfl⟩ := Int.eq_ofNat_of_zero_le lowY
    refine ⟨⟨f.nz * (b + f.ny * x), 0, f.nz - 1⟩, ?_, rfl, lowZ, by change z ≤ (f.nz : Int) - 1; omega⟩
    simp only [evaluationLines, List.mem_flatMap, List.mem_map, List.mem_range, Index.mem_span]
    refine ⟨x, ?_, b, by omega, rfl⟩
    cases inc
    · exact evaluated.resolve_left (by decide)
    · simp only [↓reduceIte]
      omega

theorem checkLines_ok (bears : m.Bears f) (axis : Axis) (inc : Bool) : m.checkLines f axis inc = .ok () := by
  obtain ⟨nx, ny, nz⟩ := bears.sizes
  obtain ⟨guardX, guardY⟩ := bears.guards
  obtain ⟨left, right⟩ := bears.columns
  obtain ⟨bottom, top⟩ := bears.rows
  have deep := bears.points
  apply if_pos
  rw [Field.size_of_fits bears.fits]
  cases axis with
  | x =>
    dsimp only
    split
    · calc f.ny * f.nz ≤ f.nx * (f.ny * f.nz) := Nat.le_mul_of_pos_left _ (by omega)
        _ = f.nx * f.ny * f.nz := (Nat.mul_assoc ..).symm
    · exact Nat.zero_le _
  | y =>
    dsimp only
    split
    · exact Nat.mul_le_mul_right _ (Nat.le_mul_of_pos_right _ (by omega))
    · exact Nat.zero_le _
  | z =>
    refine le_trans (Nat.mul_le_mul_right _ ?_) (Nat.le_mul_of_pos_right _ (by omega))
    split <;> omega

/-- Cells that a kernel within the guard cells reads around an evaluated point exist. -/
theorem reads (bears : m.Bears f) {width : Nat} (fits : axis = .z ∨ (width : Int) ≤ m.guards axis)
    (evaluated : m.Evaluates axis inc x y) {j : Int} (low : axis.coordinate x y z - width ≤ j)
    (high : j ≤ axis.coordinate x y z + width) : f.Reads axis j := by
  obtain ⟨nx, ny, -⟩ := bears.sizes
  obtain ⟨left, right⟩ := bears.columns
  obtain ⟨bottom, top⟩ := bears.rows
  cases axis with
  | x =>
    have reach := fits.resolve_left (by decide)
    simp only [Mesh.guards, Evaluates, Axis.coordinate] at reach evaluated low high
    refine .inr ⟨by omega, ?_⟩
    simp only [Field.axisSize]
    omega
  | y =>
    have reach := fits.resolve_left (by decide)
    simp only [Mesh.guards, Evaluates, Axis.coordinate] at reach evaluated low high
    refine .inr ⟨by omega, ?_⟩
    simp only [Field.axisSize]
    omega
  | z => exact .inl rfl

end Bears

/-- A field over the block of a rank, whose interior lies within the guard cells. -/
structure Holds (m : Mesh α) (f : Field α) : Prop where
  fits : f.Fits
  shaped : f.extents = m.extents
  guards : 0 ≤ m.shape.mxg ∧ 0 ≤ m.shape.myg
  columns : m.xstart = m.shape.mxg ∧ m.xstart ≤ m.xend ∧ m.xend + m.shape.mxg + 1 = m.localNx
  rows : m.ystart = m.shape.myg ∧ m.ystart ≤ m.yend ∧ m.yend + m.shape.myg + 1 = m.localNy
  points : 1 ≤ m.localNz

namespace Holds

variable {m : Mesh α} {f g : Field α} {axis : Axis} {inc : Bool} {x y z : Int}

theorem bears (holds : m.Holds f) : m.Bears f :=
  { holds with
    columns := ⟨holds.columns.1, .inr holds.columns.2.2⟩
    rows := ⟨holds.rows.1, .inr holds.rows.2.2⟩ }

theorem sizes (holds : m.Holds f) : (f.nx : Int) = m.localNx ∧ (f.ny : Int) = m.localNy ∧ (f.nz : Int) = m.localNz :=
  holds.bears.sizes

theorem of_alike (holds : m.Holds f) (alike : Field.Alike f g) : m.Holds g :=
  { holds with
    fits := alike.fits holds.fits
    shaped := by rw [← holds.shaped, Field.extents, Field.extents, alike.nx, alike.ny, alike.nz] }

theorem retag (holds : m.Holds f) (loc : Location) : m.Holds (f.retag loc) :=
  { holds with
    fits := holds.fits
    shaped := holds.shaped }

theorem interior_point (holds : m.Holds f) (inside : m.isInterior x y = true) (low : 0 ≤ z) (high : z < m.localNz) :
    f.HasPoint x y z ∧ ∀ axis inc, m.Evaluates axis inc x y := by
  obtain ⟨nx, ny, nz⟩ := holds.sizes
  obtain ⟨guardX, guardY⟩ := holds.guards
  obtain ⟨left, -, right⟩ := holds.columns
  obtain ⟨bottom, -, top⟩ := holds.rows
  simp only [isInterior, Bool.and_eq_true, decide_eq_true_eq] at inside
  refine ⟨⟨⟨⟨?_, ?_⟩, ?_, ?_⟩, low, ?_⟩, fun axis inc => ?_⟩ <;> try omega
  cases axis with
  | x => exact ⟨inside.1.1.1, inside.1.1.2⟩
  | y => exact ⟨inside.1.2, inside.2⟩
  | z => exact .inr ⟨inside.1.1.1, inside.1.1.2⟩

end Holds

end Mesh

/-- A loaded block holds the fields of its size. -/
theorem Layout.holds {l : Layout α} {i : Nat} {m : Mesh α} {f : Field α} (given : l.Assigns i m) (room : m.HasRoom)
    (shaped : f.extents = m.extents) : m.Holds f := by
  have words := inWords_of_room given room
  have wide := l.left_range i
  have tall := bottom_range given.1
  have guards := l.guards
  have deep := l.depth
  obtain ⟨startX, startY⟩ := start_eq given
  refine ⟨(ofShape_of_room given room shaped).2, shaped, ?_, ?_, ?_, ?_⟩
  · rw [shape_eq given]
    omega
  · rw [shape_eq given, xend_eq words given, localNx_eq words given, startX]
    omega
  · rw [shape_eq given, yend_eq words given, localNy_eq words given, startY]
    omega
  · rw [localNz_eq given]
    exact deep

/-- An interior ends below the upper guard cells, or beyond words. -/
theorem Index.wrap_end {guard size : Int} (guards : 0 ≤ guard ∧ guard < Text.wordEnd)
    (cells : 1 ≤ size ∧ size < Text.wordEnd) (real : 0 ≤ Index.wrap (size + 2 * guard)) :
    Index.wrap (guard + size - 1) < guard ∨
      Index.wrap (guard + size - 1) + guard + 1 = Index.wrap (size + 2 * guard) := by
  have half : (Nat.pow 2 63 : Nat) = 9223372036854775808 := rfl
  have full : (Nat.pow 2 64 : Nat) = 18446744073709551616 := rfl
  obtain ⟨low, high⟩ := guards
  obtain ⟨first, last⟩ := cells
  simp only [Text.wordEnd, half, Index.wrap, Int.bmod, full] at *
  omega

/-- A loaded block bears the fields that have a value for each of its points. -/
theorem Layout.bears {l : Layout α} {i : Nat} {m : Mesh α} {f : Field α} (given : l.Assigns i m) (fits : f.Fits)
    (shaped : f.extents = m.extents) : m.Bears f := by
  have wide := l.left_range i
  have tall := bottom_range given.1
  have guards := l.guards
  have words : l.shape.mx < Text.wordEnd := Index.wrap_lt _
  have top : l.shape.ny < Text.wordEnd := by
    have proper := l.proper.1
    simp only [Index.greatest] at proper
    omega
  have sizes : 0 ≤ m.localNx ∧ 0 ≤ m.localNy := by
    simp only [Field.extents, Mesh.extents, Extents.mk.injEq] at shaped
    omega
  obtain ⟨inside, _, _, _, _, _, -, -, rfl⟩ := given
  exact
    { fits, shaped, guards
      columns := ⟨rfl, Index.wrap_end (by omega) (by omega) sizes.1⟩
      rows := ⟨rfl, Index.wrap_end (by omega) (by omega) sizes.2⟩
      points := l.depth }

/-! Kernels on lines. -/

section Kernels

variable [Scalar α]

namespace Window

/-- The window around point `i` of a line, without a way to fail. -/
def on (line : Int → α) (i : Int) (o : Offset) (width : Int) : Window α := Id.run (gather line i o width)

variable {line line' : Int → α} {i : Int} {o : Offset} {width : Nat}

theorem gather_ok {get : Int → Outcome α} (reads : ∀ j, i - width ≤ j → j ≤ i + width → get j = .ok (line j)) :
    gather get i o width = .ok (on line i o width) := by
  have ends : (o.neighbours i).1 ≤ i ∧ i - 1 ≤ (o.neighbours i).1 ∧ i ≤ (o.neighbours i).2 ∧
      (o.neighbours i).2 ≤ i + 1 := by
    cases o <;> simp only [Offset.neighbours] <;> omega
  simp only [on, gather, gatherAround, reads i (by omega) (by omega)]
  by_cases point : (width : Int) < 1
  · simp only [if_pos point]
    rfl
  · by_cases near : (width : Int) ≤ 1
    · simp only [if_neg point, if_pos near, reads (o.neighbours i).1 (by omega) (by omega),
        reads (o.neighbours i).2 (by omega) (by omega)]
      rfl
    · simp only [if_neg point, if_neg near, reads (o.neighbours i).1 (by omega) (by omega),
        reads (o.neighbours i).2 (by omega) (by omega), reads ((o.neighbours i).1 - 1) (by omega) (by omega),
        reads ((o.neighbours i).2 + 1) (by omega) (by omega)]
      rfl

theorem on_congr (same : ∀ j, i - width ≤ j → j ≤ i + width → line j = line' j) :
    on line i o width = on line' i o width := by
  have first : gather (fun j => (.ok (line' j) : Outcome α)) i o width = .ok (on line i o width) :=
    gather_ok fun j low high => by rw [same j low high]
  have second : gather (fun j => (.ok (line' j) : Outcome α)) i o width = .ok (on line' i o width) :=
    gather_ok fun _ _ _ => rfl
  exact Except.ok.inj (first.symm.trans second)

/-- A window sees the points of a line relative to its own. -/
theorem on_relative (line : Int → α) (i : Int) (o : Offset) (width : Int) :
    on line i o width = on (fun k => line (i + k)) 0 o width := by
  cases o <;>
    simp only [on, gather, gatherAround, Offset.neighbours, Int.sub_eq_add_neg, Int.zero_add, Int.add_zero, Int.add_assoc]

end Window

namespace Kernel

variable {k : Kernel α} {axis : Axis} {family : Family} {method : Method}

/-- A kernel is the one that was asked for. Every kernel but the spectral one reaches beyond its point, and those of a
derivative have a formula for one window. -/
theorem of?_made (made : of? family method = some k) : (k.method = method ∧ k.family = family) ∧
    (k.isSpectral = true ∨ 1 ≤ k.width) ∧
      (family.kind.isFlow = false → k.isSpectral = true ∨ ∃ formula, k.formula = .derivative formula) := by
  obtain ⟨kind, staggered⟩ := family
  cases kind <;> cases staggered <;> cases method <;> simp [of?] at made <;> subst made <;> simp [isSpectral, Kind.isFlow]

theorem of?_derivative (made : of? family method = some k) (plain : family.kind.isFlow = false) :
    k.isSpectral = true ∨ ∃ formula, k.formula = .derivative formula := (of?_made made).2.2 plain

theorem of?_width (made : of? family method = some k) : k.isSpectral = true ∨ 1 ≤ k.width := (of?_made made).2.1

/-- The value at point `i` of a line of a kernel for one field. -/
def slope (k : Kernel α) (kind : Kind) (o : Offset) (n : Nat) (line : Int → α) (i : Int) : α :=
  if k.isSpectral then
    match (Modes.ofLength n : Outcome (Modes α)) with
    | .ok modes =>
      let values := ((List.range n).map fun (j : Nat) => line j).toArray
      ((modes.derivative values (if kind = .second then 2 else 1))[i.toNat]?).getD 0
    | .error _ => 0
  else
    match k.formula with
    | .derivative formula => formula (Window.on line i o k.width)
    | _ => 0

end Kernel

theorem Kernel.lookup_ok {axis : Axis} {family : Family} {method : Method} {k : Kernel α}
    (found : lookup axis family method = .ok k) :
    of? family k.method = some k ∧ k.family = family ∧ (k.isSpectral = true → axis = .z) := by
  simp only [lookup, Family.admit] at found
  split at found
  · cases found
  split at found
  next admitted =>
    cases made : (of? family method : Option (Kernel α)) with
    | some k' =>
      simp only [made] at found
      cases found
      have own := (of?_made made).1
      refine ⟨own.1.symm ▸ made, own.2, fun spectral => admitted.2 ?_⟩
      rw [← own.1]
      simpa [isSpectral] using spectral
    | none =>
      simp only [made] at found
      cases found
  · cases found

/-- The kernel of a method is one of its family and does not reach beyond the guard cells. -/
theorem Mesh.kernel_ok {m : Mesh α} {axis : Axis} {family : Family} {method : Method} {k : Kernel α}
    (made : m.kernel axis family method = .ok k) :
    Kernel.of? family k.method = some k ∧ (k.isSpectral = true → axis = .z) ∧
      (axis = .z ∨ (k.width : Int) ≤ m.guards axis) := by
  obtain ⟨k', resolved, checked⟩ := Outcome.bind_eq_ok.mp made
  obtain ⟨narrow, same⟩ : ¬ (axis ≠ .z ∧ m.guards axis < k'.width) ∧ (.ok k' : Outcome (Kernel α)) = .ok k := by
    split at checked
    · cases checked
    next narrow => exact ⟨narrow, checked⟩
  obtain rfl : k' = k := Except.ok.inj same
  have found : m.defaults.resolve axis family method = .ok k' := by
    cases result : (m.defaults.resolve axis family method : Except Error (Kernel α)) with
    | error e =>
      rw [result] at resolved
      cases resolved
    | ok other =>
      rw [result] at resolved
      exact congrArg _ (Except.ok.inj resolved)
  obtain ⟨own, -, along⟩ := Kernel.lookup_ok found
  refine ⟨own, along, ?_⟩
  by_contra wide
  obtain ⟨across, reach⟩ := not_or.mp wide
  exact narrow ⟨across, by omega⟩

namespace Mesh

/-- A derivative at the place of the input, or half a cell off, before it is moved anywhere. -/
def differenced (m : Mesh α) (axis : Axis) (kind : Kind) (k : Kernel α) (o : Offset) (f : Field α)
    (includeXGuards : Bool) : Outcome (Field α) := do
  m.checkLines f axis includeXGuards
  if k.isSpectral then m.spectralDerivative kind f includeXGuards
  else
    let reader := m.lineReader f axis
    let value (base i : Int) : Outcome (Option α) := do
      let w ← Window.gather (reader.read f.data base) i o k.width
      return some (← k.apply w w)
    f.withData (← sweep reader.stride (m.evaluationLines f axis includeXGuards) value f.zeroLike.data)

/-- The end of a planned derivative. Differences are where their kernel left them, and move to where the result belongs. -/
def settle (p : DerivativePlan) (evaluated : Field α) : Outcome (Field α) :=
  let r := if p.staggered then evaluated.retag p.evaluatedAt else evaluated
  match p.resultTo with
  | some loc => r.interpolate (.real loc)
  | none => return r

theorem settle_direct {p : DerivativePlan} (direct : p.resultTo = none) (evaluated : Field α) :
    settle p evaluated = .ok (if p.staggered then evaluated.retag p.evaluatedAt else evaluated) := by
  unfold settle
  rw [direct]
  rfl

variable {m : Mesh α} {axis : Axis} {kind : Kind} {f : Field α} {place : Placement} {method : Method} {inc : Bool}

theorem derivative_single {p : DerivativePlan} (planned : m.plan axis f.loc place = .ok p) (single : m.axisSize axis = 1) :
    m.derivative axis kind f place method inc = .ok (f.zeroLike.retag p.output) := by
  unfold derivative
  rw [planned]
  change (if m.axisSize axis = 1 then _ else _) = _
  rw [if_pos single]
  rfl

/-- A derivative finds its kernel, moves its input, takes differences, and moves the result, as it was planned. -/
theorem derivative_bind {p : DerivativePlan} (planned : m.plan axis f.loc place = .ok p) (several : m.axisSize axis ≠ 1) :
    m.derivative axis kind f place method inc = (m.kernel axis ⟨kind, p.staggered⟩ method >>= fun k => do
      let input ← match p.inputTo with
        | some loc => f.interpolate (.real loc)
        | none => pure f
      settle p (← m.differenced axis kind k p.offset input inc)) := by
  unfold derivative
  rw [planned]
  change (if m.axisSize axis = 1 then _ else _) = _
  rw [if_neg several]
  refine congrArg (m.kernel axis ⟨kind, p.staggered⟩ method >>= ·) (funext fun k => ?_)
  cases spectral : k.isSpectral <;>
    simp only [differenced, spectral, bind_assoc, Bool.false_eq_true, ↓reduceIte] <;> rfl

theorem derivative_eq {p : DerivativePlan} {k : Kernel α} (planned : m.plan axis f.loc place = .ok p)
    (several : m.axisSize axis ≠ 1) (made : m.kernel axis ⟨kind, p.staggered⟩ method = .ok k) :
    m.derivative axis kind f place method inc = (do
      let input ← match p.inputTo with
        | some loc => f.interpolate (.real loc)
        | none => pure f
      settle p (← m.differenced axis kind k p.offset input inc)) := by
  rw [derivative_bind planned several, made]
  rfl

end Mesh

/-! Whole z lines. -/

section Lines

variable {f : Field α} {x y z : Int}

omit [Scalar α] in
private theorem writes_line (fits : f.Fits) {data : Array α} (size : data.size = f.data.size) {values : List α}
    (length : values.length = f.nz) {a b : Int} (has : f.HasColumn a b) (has' : f.HasPoint x y z) :
    (Field.writeRun data (f.place a b 0).toNat values)[(f.place x y z).toNat]? =
      if f.place a b 0 = f.place x y 0 then values[z.toNat]? else data[(f.place x y z).toNat]? := by
  obtain ⟨column, low, high⟩ := has'
  have begins (a b : Int) (has : f.HasColumn a b) := Field.place_range fits (z := 0) ⟨has, by omega, by omega⟩
  have here := begins a b has
  have inside := Field.place_range fits ⟨column, low, high⟩
  have shift (a b c : Int) : f.place a b c = f.place a b 0 + c := by simp only [Field.place]; ring
  rw [Field.getElem?_writeRun, length]
  by_cases same : f.place a b 0 = f.place x y 0
  · rw [if_pos same, if_pos, same, shift x y z]
    · congr 1
      have := begins x y column
      omega
    · rw [same, shift x y z] at *
      have := begins x y column
      omega
  · rw [if_neg same, if_neg]
    intro within
    have point : f.HasPoint a b (f.place x y z - f.place a b 0) := ⟨has, by omega, by omega⟩
    obtain ⟨rfl, rfl, -⟩ := Field.point_inj point ⟨column, low, high⟩ (by rw [shift a b]; omega)
    exact same rfl

omit [Scalar α] in
private theorem folds_lines (fits : f.Fits) (values : Int → List α) (length : ∀ base, (values base).length = f.nz)
    (lines : List LineSpan) (data : Array α) (size : data.size = f.data.size)
    (known : ∀ l ∈ lines, ∃ a b, f.HasColumn a b ∧ l.base = f.place a b 0) :
    ∃ data', lines.foldlM (fun data (l : LineSpan) =>
        if 0 ≤ l.base ∧ l.base + (f.nz : Int) ≤ (f.data.size : Int) then
          (return Field.writeRun data l.base.toNat (values l.base) : Outcome (Array α))
        else Outcome.outOfRange) data = Except.ok data' ∧ data'.size = f.data.size ∧ ∀ x y z, f.HasPoint x y z →
      ((∃ l ∈ lines, l.base = f.place x y 0) → data'[(f.place x y z).toNat]? = (values (f.place x y 0))[z.toNat]?) ∧
      ((∀ l ∈ lines, l.base ≠ f.place x y 0) → data'[(f.place x y z).toNat]? = data[(f.place x y z).toNat]?) := by
  induction lines generalizing data with
  | nil => exact ⟨data, rfl, size, fun x y z _ => ⟨by simp, fun _ => rfl⟩⟩
  | cons l rest ih =>
    obtain ⟨a, b, has, base⟩ := known l List.mem_cons_self
    obtain ⟨data', folded, same, all⟩ := ih (Field.writeRun data (f.place a b 0).toNat (values (f.place a b 0)))
      (by simpa using size) fun other later => known other (List.mem_cons_of_mem _ later)
    refine ⟨data', ?_, same, fun x y z has' => ⟨fun covered => ?_, fun uncovered => ?_⟩⟩
    · obtain ⟨start, starts, stop, number⟩ := Field.exists_start fits has
      have whole : f.place a b 0 = (f.nz * start : Nat) := by
        rw [Field.place, ← number]
        push_cast
        ring
      rw [List.foldlM_cons, base, if_pos ⟨by omega, by omega⟩]
      exact folded
    · by_cases later : ∃ other ∈ rest, other.base = f.place x y 0
      · exact (all x y z has').1 later
      · obtain ⟨other, member, here⟩ := covered
        rcases List.mem_cons.mp member with rfl | among
        · rw [(all x y z has').2 fun other among here => later ⟨other, among, here⟩,
            writes_line fits size (length _) has has', if_pos (base.symm.trans here), base.symm.trans here]
        · exact absurd ⟨other, among, here⟩ later
    · rw [(all x y z has').2 fun other among => uncovered other (List.mem_cons_of_mem _ among),
        writes_line fits size (length _) has has', if_neg (base ▸ uncovered l List.mem_cons_self)]

theorem Field.extract_line (fits : f.Fits) (has : f.HasPoint x y z) :
    f.data.extract (f.place x y 0).toNat ((f.place x y 0).toNat + f.nz) =
      ((List.range f.nz).map fun (j : Nat) => f.along .z x y z j).toArray := by
  obtain ⟨column, low, high⟩ := has
  have begins := place_range fits (z := 0) ⟨column, by omega, by omega⟩
  apply Array.ext_getElem?
  intro j
  simp only [Array.getElem?_extract, List.getElem?_toArray, List.getElem?_map]
  by_cases inside : j < f.nz
  · have point : f.HasPoint x y j := ⟨column, by omega, by omega⟩
    have range := place_range fits point
    have shift : f.place x y j = f.place x y 0 + j := by simp only [place]; ring
    have found := getElem?_place fits point
    rw [shift] at found
    rw [if_pos (by omega), List.getElem?_range inside, Option.map_some, along, Int.emod_eq_of_lt (by omega) (by omega),
      ← found]
    congr 1
    omega
  · rw [if_neg (by omega), List.getElem?_eq_none (by simpa using inside)]
    rfl

theorem Modes.size_derivative {n : Nat} {modes : Modes α} (made : Modes.ofLength n = .ok modes) (line : Array α)
    (order : Int) : (modes.derivative line order).size = n := by
  simp only [Modes.ofLength] at made
  split at made
  · cases made
  next positive =>
    cases made
    refine Fourier.size_synthesise n (by omega) _ _ ?_
    simp [Fourier.analyse, Fourier.unpack]

end Lines

namespace Mesh

variable {m : Mesh α} {axis : Axis} {kind : Kind} {k : Kernel α} {f : Field α}

private theorem spectral_values (bears : m.Bears f) (spectral : k.isSpectral = true) (o : Offset) (inc : Bool) :
    ∃ r, m.spectralDerivative kind f inc = .ok r ∧ Field.Alike f r ∧ ∀ x y z, f.HasPoint x y z →
      r.value x y z = if m.Evaluates .z inc x y then k.slope kind o f.nz (f.along .z x y z) z else 0 := by
  obtain ⟨-, -, nz⟩ := bears.sizes
  have deep := bears.points
  obtain ⟨modes, made⟩ : ∃ modes, (Modes.ofLength f.nz : Outcome (Modes α)) = .ok modes :=
    ⟨_, if_neg (by omega)⟩
  let order : Int := if kind = .second then 2 else 1
  let values (base : Int) : List α := (modes.derivative (f.data.extract base.toNat (base.toNat + f.nz)) order).toList
  have starts (l : LineSpan) (member : l ∈ m.evaluationLines f .z inc) :
      ∃ a b, f.HasColumn a b ∧ m.Evaluates .z inc a b ∧ l.base = f.place a b 0 := by
    have range : l.lo = 0 ∧ l.hi = f.nz - 1 := by
      simp only [evaluationLines, List.mem_flatMap, List.mem_map] at member
      obtain ⟨_, -, _, -, rfl⟩ := member
      exact ⟨rfl, rfl⟩
    obtain ⟨a, b, c, has, evaluated, base, -⟩ := bears.only_evaluated member (i := 0) (by omega) (by omega)
    exact ⟨a, b, has.1, evaluated, base.trans (by simp only [Field.lineBase, Field.place, Int.zero_add])⟩
  obtain ⟨data, folded, size, points⟩ := folds_lines bears.fits values
    (fun base => by rw [Array.length_toList, Modes.size_derivative made]) (m.evaluationLines f .z inc) f.zeroLike.data
    (Array.size_map ..) fun l member => by
      obtain ⟨a, b, has, -, base⟩ := starts l member
      exact ⟨a, b, has, base⟩
  obtain ⟨r, taken⟩ := Field.withData_of_size size
  refine ⟨r, ?_, (Field.withData_ok taken).2, fun x y z has => ?_⟩
  · exact Outcome.bind_eq_ok.mpr ⟨modes, made, Outcome.bind_eq_ok.mpr ⟨data, folded, taken⟩⟩
  · split
    next evaluated =>
      obtain ⟨l, member, base, -⟩ := Bears.all_evaluated has evaluated
      have covered : ∃ l ∈ m.evaluationLines f .z inc, l.base = f.place x y 0 :=
        ⟨l, member, base.trans (by simp only [Field.lineBase, Field.place, Int.zero_add])⟩
      have found := (points x y z has).1 covered
      have inside : z.toNat < (values (f.place x y 0)).length := by
        rw [Array.length_toList, Modes.size_derivative made]
        have := has.2
        omega
      rw [List.getElem?_eq_getElem inside] at found
      rw [Field.value_of_data taken found, Kernel.slope, if_pos spectral, made]
      simp only [← Field.extract_line bears.fits has]
      rw [← Array.getElem?_toList, List.getElem?_eq_getElem inside]
      rfl
    next skipped =>
      have uncovered (l : LineSpan) (member : l ∈ m.evaluationLines f .z inc) : l.base ≠ f.place x y 0 := by
        intro same
        obtain ⟨a, b, column, evaluated, base⟩ := starts l member
        have point (a b : Int) (column : f.HasColumn a b) : f.HasPoint a b 0 := ⟨column, by omega, by omega⟩
        obtain ⟨rfl, rfl, -⟩ := Field.point_inj (point x y has.1) (point a b column) (base.symm.trans same)
        exact skipped evaluated
      apply Field.value_of_data taken
      rw [(points x y z has).2 uncovered, Field.getElem?_zeroLike bears.fits has]

/-- A sweep over the evaluated lines gives every evaluated point its value, and leaves zero elsewhere. -/
theorem Bears.swept (bears : m.Bears f) {inc : Bool} {value : Int → Int → Outcome (Option α)} {new : Int → Int → Int → α}
    (known : ∀ x y z, f.HasPoint x y z → m.Evaluates axis inc x y →
      value (f.lineBase axis x y z) (axis.coordinate x y z) = .ok (some (new x y z))) :
    ∃ r, (do f.withData (← sweep (m.lineReader f axis).stride (m.evaluationLines f axis inc) value f.zeroLike.data)) =
        .ok r ∧
      Field.Alike f r ∧ ∀ x y z, f.HasPoint x y z → r.value x y z = if m.Evaluates axis inc x y then new x y z else 0 := by
  have zeros : f.zeroLike.data.size = f.data.size := Array.size_map ..
  obtain ⟨data, swept, size, points⟩ := sweep_along (fun x y _ => m.Evaluates axis inc x y) bears.fits zeros
    (fun l member i low high => bears.only_evaluated member low high)
    (fun x y z has evaluated => Bears.all_evaluated has evaluated) known
  obtain ⟨r, taken⟩ := Field.withData_of_size size
  refine ⟨r, Outcome.bind_eq_ok.mpr ⟨data, swept, taken⟩, (Field.withData_ok taken).2, fun x y z has => ?_⟩
  apply Field.value_of_data taken
  split
  next evaluated => rw [(points x y z has).1 evaluated, Option.some_or]
  next skipped => rw [(points x y z has).2 skipped, Field.getElem?_zeroLike bears.fits has]

/-- Differences are taken point by point from the line through the point, and are zero where none are taken. -/
theorem differenced_values (bears : m.Bears f) {staggered : Bool} {method : Method}
    (made : m.kernel axis ⟨kind, staggered⟩ method = .ok k) (plain : kind.isFlow = false) (o : Offset) (inc : Bool) :
    ∃ r, m.differenced axis kind k o f inc = .ok r ∧ Field.Alike f r ∧ ∀ x y z, f.HasPoint x y z →
      r.value x y z = if m.Evaluates axis inc x y
        then k.slope kind o f.nz (f.along axis x y z) (axis.coordinate x y z) else 0 := by
  obtain ⟨own, along, reach⟩ := kernel_ok made
  rw [differenced, bears.checkLines_ok]
  cases spectral : k.isSpectral with
  | true =>
    obtain rfl := along spectral
    exact spectral_values bears spectral o inc
  | false =>
    obtain ⟨formula, given⟩ := (Kernel.of?_derivative own plain).resolve_left (by simp [spectral])
    have slope (x y z : Int) : k.slope kind o f.nz (f.along axis x y z) (axis.coordinate x y z) =
        formula (Window.on (f.along axis x y z) (axis.coordinate x y z) o k.width) := by
      simp only [Kernel.slope, spectral, given, Bool.false_eq_true, ↓reduceIte]
    let value (base i : Int) : Outcome (Option α) := do
      let w ← Window.gather ((m.lineReader f axis).read f.data base) i o k.width
      return some (← k.apply w w)
    have known (x y z : Int) (has : f.HasPoint x y z) (evaluated : m.Evaluates axis inc x y) :
        value (f.lineBase axis x y z) (axis.coordinate x y z) =
          .ok (some (k.slope kind o f.nz (f.along axis x y z) (axis.coordinate x y z))) := by
      simp only [value, bears.lineReader_eq]
      rw [Window.gather_ok fun j low high => Field.read_along bears.fits has (bears.reads reach evaluated low high)]
      simp only [slope, Kernel.apply, given]
      rfl
    obtain ⟨r, swept, values⟩ := bears.swept known
    exact ⟨r, Outcome.bind_eq_ok.mpr ⟨(), rfl, swept⟩, values⟩

omit [Scalar α] in
/-- A derivative that moves neither its input nor its result ends where it was asked for. -/
theorem plan_direct {source : Location} {place : Placement} {p : DerivativePlan}
    (planned : m.plan axis source place = .ok p) (input : p.inputTo = none) (result : p.resultTo = none) :
    place.orElse source = .real p.output ∧ (if p.staggered then p.evaluatedAt else source) = p.output := by
  cases found : place.orElse source with
  | inherit | shifted =>
    rw [plan, found] at planned
    cases planned
  | real target =>
    simp only [plan, found] at planned
    split at planned
    next own =>
      cases planned
      exact ⟨rfl, own.symm⟩
    split at planned
    · cases planned
    split at planned
    next low =>
      cases planned
      exact ⟨rfl, low.symm⟩
    split at planned
    next =>
      cases planned
      have centred : target = .centre := by
        by_contra other
        simp [other] at result
      exact ⟨rfl, centred.symm⟩
    next =>
      cases planned
      cases result

omit [Scalar α] in
theorem plan_own (m : Mesh α) (axis : Axis) (source : Location) : m.plan axis source (.real source) = .ok
    { output := source, staggered := false, evaluatedAt := source, offset := .centred, inputTo := none
      resultTo := none } := by
  simp [plan, Placement.orElse]

/-- A kernel needs neighbours along x and y, so nothing is evaluated there along an axis with a single point. Along z the
one point is its own neighbour. -/
theorem Bears.evaluates_several (bears : m.Bears f) {staggered : Bool} {method : Method}
    (made : m.kernel axis ⟨kind, staggered⟩ method = .ok k) {inc : Bool} {x y : Int} :
    m.axisSize axis ≠ 1 ∧ m.Evaluates axis inc x y ↔ m.Evaluates axis inc x y ∧ ¬ (axis = .z ∧ m.localNz = 1) := by
  obtain ⟨own, along, reach⟩ := kernel_ok made
  have wide (across : axis ≠ .z) : 1 ≤ k.width := (Kernel.of?_width own).resolve_left (mt along across)
  obtain ⟨left, right⟩ := bears.columns
  obtain ⟨bottom, top⟩ := bears.rows
  cases axis with
  | x =>
    have deep := reach.resolve_left (by decide)
    have := wide (by decide)
    simp only [axisSize, Mesh.guards, Evaluates, reduceCtorEq, false_and, not_false_eq_true, and_true] at deep ⊢
    omega
  | y =>
    have deep := reach.resolve_left (by decide)
    have := wide (by decide)
    simp only [axisSize, Mesh.guards, Evaluates, reduceCtorEq, false_and, not_false_eq_true, and_true] at deep ⊢
    omega
  | z => simp only [axisSize, true_and, and_comm, ne_eq]

/-- A derivative with a kernel can be taken wherever nothing has to be moved. Its values are those of the kernel on the
line through each point. -/
theorem derivative_values (bears : m.Bears f) {place : Placement} {method : Method} {inc : Bool} {p : DerivativePlan}
    (planned : m.plan axis f.loc place = .ok p) (input : p.inputTo = none) (result : p.resultTo = none)
    (made : m.kernel axis ⟨kind, p.staggered⟩ method = .ok k) (plain : kind.isFlow = false) :
    ∃ d, m.derivative axis kind f place method inc = .ok d ∧ Field.Alike (f.retag p.output) d ∧
      ∀ x y z, f.HasPoint x y z → d.value x y z = if m.axisSize axis ≠ 1 ∧ m.Evaluates axis inc x y
        then k.slope kind p.offset f.nz (f.along axis x y z) (axis.coordinate x y z) else 0 := by
  by_cases single : m.axisSize axis = 1
  · refine ⟨_, derivative_single planned single, f.alike_zeroLike.retag p.output, fun x y z has => ?_⟩
    rw [if_neg fun several => several.1 single, Field.value_retag, Field.value_zeroLike bears.fits has]
  · obtain ⟨d, computed, alike, values⟩ := differenced_values bears made plain p.offset inc
    have placed := (plan_direct planned input result).2
    rw [derivative_eq planned single made]
    simp only [input, ne_eq, single, not_false_eq_true, true_and]
    change ∃ r, (m.differenced axis kind k p.offset f inc >>= settle p) = Except.ok r ∧ _
    rw [computed]
    refine ⟨_, settle_direct result d, ?_⟩
    cases staggered : p.staggered with
    | false =>
      simp only [staggered, Bool.false_eq_true, ↓reduceIte] at placed ⊢
      rw [← placed]
      exact ⟨alike, values⟩
    | true =>
      simp only [staggered, ↓reduceIte] at placed ⊢
      rw [placed]
      exact ⟨alike.retag p.output, values⟩

theorem derivative_total (holds : m.Holds f) {place : Placement} {method : Method} {inc : Bool} {p : DerivativePlan}
    (planned : m.plan axis f.loc place = .ok p) (input : p.inputTo = none) (result : p.resultTo = none)
    (made : m.kernel axis ⟨kind, p.staggered⟩ method = .ok k) (plain : kind.isFlow = false) :
    ∃ d, m.derivative axis kind f place method inc = .ok d ∧ Field.Alike (f.retag p.output) d := by
  obtain ⟨d, computed, alike, -⟩ := derivative_values holds.bears planned input result made plain
  exact ⟨d, computed, alike⟩

end Mesh

end Kernels

end HaloMesh
