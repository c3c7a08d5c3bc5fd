import HaloMesh.Command.Verification
import HaloMesh.Proofs.ExchangeSequence
import HaloMesh.Proofs.GlobalLines
import HaloMesh.Proofs.GridVariables
import HaloMesh.Proofs.PointwiseDerivatives

/-! The check of the seams. Every rank makes its seam cells undefined, exchanges the numbers of the columns and rows and
looks at what arrived. On every grid this is what it should be. -/

namespace HaloMesh
open Transport

variable {α : Type} [Scalar α]

/-- Whole numbers as values, as far as the check looks at them. From zero up to a limit those that differ by whole turns are told
to be near. -/
structure Scalar.Counts (α : Type) [Scalar α] (limit : Int) : Prop where
  defined : ∀ n : Int, isUndefined (ofInt n : α) = false
  near : ∀ n : Int, lt (1e-9 : α) (abs (ofInt n - ofInt n)) = false
  turned : ∀ m n turn : Int, 0 ≤ m → m ≤ limit → 0 ≤ n → n ≤ limit → 0 < turn → turn ≤ limit → turn ∣ m - n →
    lt (1e-9 : α) (abs (remainder (ofInt m - ofInt n) (ofInt turn) - 0)) = false

namespace Field

/-- A new field has at each point what the function says. -/
theorem ofFunction_values {nx ny nz : Int} (positive : 1 ≤ nx ∧ 1 ≤ ny ∧ 1 ≤ nz)
    (room : nx * ny * nz ≤ Index.storageLimit) (loc : Location) (g : Nat → Nat → Nat → α) :
    ∃ f, ofFunction nx ny nz (.real loc) g = .ok f ∧ f.extents = ⟨nx, ny, nz⟩ ∧
      ∀ x y z : Nat, f.HasPoint x y z → f.value x y z = g x y z := by
  obtain ⟨f, made, shaped, -⟩ := const_ok nx ny nz positive room (0 : α) loc
  obtain ⟨rfl, rfl, rfl⟩ : (f.nx : Int) = nx ∧ (f.ny : Int) = ny ∧ (f.nz : Int) = nz := by simpa [extents] using shaped
  have fits : f.Fits := by
    rw [Fits]
    push_cast
    exact room
  let line (x y : Nat) : List α := (List.range f.nz).map fun z => g x y z
  let plane (x : Nat) : List α := ((List.range f.ny).map fun y => line x y).flatten
  let data : List α := ((List.range f.nx).map plane).flatten
  have lines (x : Nat) : ∀ part ∈ (List.range f.ny).map (line x), part.length = f.nz := by simp [line]
  have planes : ∀ part ∈ (List.range f.nx).map plane, part.length = f.ny * f.nz := by
    simp only [List.mem_map, forall_exists_index, and_imp, forall_apply_eq_imp_iff₂]
    intro x _
    rw [length_flatten_uniform (lines x), List.length_map, List.length_range]
  have size : data.toArray.size = f.data.size := by
    rw [List.size_toArray, length_flatten_uniform planes, size_of_fits fits, List.length_map, List.length_range,
      Nat.mul_assoc]
  obtain ⟨d, taken⟩ := withData_of_size size
  have alike := (withData_ok taken).2
  refine ⟨d, ?_, alike.extents, fun x y z has => ?_⟩
  · refine Outcome.bind_eq_ok.mpr ⟨f, made, Outcome.bind_eq_ok.mpr ⟨(), if_pos fits, ?_⟩⟩
    simpa only [data, plane, line, ← List.flatMap_def] using taken
  · obtain ⟨⟨⟨-, inX⟩, -, inY⟩, -, inZ⟩ := alike.hasPoint.mp has
    refine value_of_data taken ?_
    have place : (f.place x y z).toNat = x * (f.ny * f.nz) + (y * f.nz + z) := by
      have same : f.place x y z = ((x * (f.ny * f.nz) + (y * f.nz + z) : Nat) : Int) := by
        rw [Field.place]
        push_cast
        ring
      rw [same, Int.toNat_natCast]
    have within : y * f.nz + z < f.ny * f.nz := by
      calc y * f.nz + z < (y + 1) * f.nz := by rw [Nat.succ_mul]; omega
        _ ≤ f.ny * f.nz := Nat.mul_le_mul_right _ (by omega)
    rw [List.getElem?_toArray, place, getElem?_flatten_uniform planes within, List.getElem?_map,
      List.getElem?_range (by omega), Option.map_some, Option.bind_some, getElem?_flatten_uniform (lines x) (by omega),
      List.getElem?_map, List.getElem?_range (by omega), Option.map_some, Option.bind_some]
    simp [line, show z < f.nz by omega]

end Field

namespace Region

theorem isBoundary_iff {r : Region} : (!r.isBoundary) = true ↔ r.kind = .seam := by
  cases kind : r.kind <;> simp [isBoundary, kind]

end Region

namespace Layout

variable {l : Layout α} {i : Nat} {m : Mesh α}

/-- The field that is sent to check the seams: undefined in their cells and as told elsewhere. -/
theorem seamField_values (given : l.Assigns i m) (room : m.HasRoom) (value : Int → Int → α) :
    ∃ f, m.seamField value = .ok f ∧ f.extents = m.extents ∧ ∀ x y z, f.HasPoint x y z →
      (m.Seam x y → f.value x y z = Scalar.undefined) ∧ (¬ m.Seam x y → f.value x y z = value x y) := by
  have words := inWords_of_room given room
  have tall := bottom_range given.1
  have wide := l.left_range i
  have guards := l.guards
  have deep := l.depth
  have width := localNx_eq words given
  have height := localNy_eq words given
  have depth := localNz_eq given
  obtain ⟨f, made, shaped, values⟩ := Field.ofFunction_values
    (show 1 ≤ m.localNx ∧ 1 ≤ m.localNy ∧ 1 ≤ m.localNz by omega)
    (by rw [width, height, depth]; exact (hasRoom_iff given).mp room) .centre fun x y _ =>
      if (m.guardRegions.filter fun r => !r.isBoundary).any fun r => r.contains x y then Scalar.undefined else value x y
  refine ⟨f, made, shaped, fun x y z has => ?_⟩
  have seam : (m.guardRegions.filter fun r => !r.isBoundary).any (fun r => r.contains x y) = true ↔ m.Seam x y := by
    simp only [List.any_eq_true, List.mem_filter, Region.isBoundary_iff, Mesh.Seam, and_assoc]
  obtain ⟨lowX, lowY, lowZ⟩ : 0 ≤ x ∧ 0 ≤ y ∧ 0 ≤ z := ⟨has.1.1.1, has.1.2.1, has.2.1⟩
  have point := values x.toNat y.toNat z.toNat
  rw [Int.toNat_of_nonneg lowX, Int.toNat_of_nonneg lowY, Int.toNat_of_nonneg lowZ] at point
  rw [point has]
  exact ⟨fun inside => if_pos (seam.mpr inside), fun outside => if_neg fun inside => outside (seam.mp inside)⟩

end Layout

section Arrivals

variable {l : Layout α} {meshes : Nat → Mesh α} {before after : Nat → Field α}
  {data : Int → Int → Int → α} (given : ∀ i < l.count, l.Assigns i (meshes i))
  (room : ∀ i < l.count, (meshes i).HasRoom) (shaped : ∀ i < l.count, (before i).extents = (meshes i).extents)
  (filled : Filled l.count meshes before after) (sampled : ∀ i < l.count, (meshes i).Samples data (before i))
  {i : Nat} (inside : i < l.count) {x y z : Int}

include given room shaped filled sampled inside

/-- A seam cell gets global data of its own column, and beside the interior rows of its own row. -/
theorem value_seam (straight : l.shape.twistShift = false) (has : (before i).HasPoint x y z)
    (seam : (meshes i).Seam x y) : ∃ row, (after i).value x y z = data (l.shape.columnAt ((meshes i).globalX x)) row z ∧
      ((meshes i).ystart ≤ y → y ≤ (meshes i).yend → row = (meshes i).globalY y) := by
  have here := given i inside
  have words := Layout.inWords_of_room here (room i inside)
  have place := (hasPoint_iff given room shaped inside).mp has
  have start := (Layout.start_eq here).2
  have top := Layout.yend_eq words here
  have guards := l.guards
  have globalX : (meshes i).globalX x = x + l.left i :=
    Layout.globalX_eq words here place.1.1.1 (by rw [Layout.localNx_eq words here]; exact place.1.1.2)
  rw [globalX]
  by_cases beside : l.shape.myg ≤ y ∧ y < l.shape.myg + l.height i
  · exact ⟨_, value_sideways given room shaped filled sampled inside has beside.1 beside.2, fun _ _ => rfl⟩
  -- a guard row is so many steps above or below the interior ones
  · obtain ⟨up, steps, first, last, rfl⟩ : ∃ (up : Bool) (steps : Nat), 1 ≤ steps ∧ (steps : Int) ≤ l.shape.myg ∧
        y = (meshes i).guardRow up steps := by
      by_cases low : y < l.shape.myg
      · exact ⟨false, (l.shape.myg - y).toNat, by omega, by omega, by
          rw [Layout.guardRow_eq words here, if_neg (by decide)]; omega⟩
      · exact ⟨true, (y - (l.shape.myg + l.height i - 1)).toNat, by omega, by omega, by
          rw [Layout.guardRow_eq words here, if_pos rfl]; omega⟩
    obtain ⟨row, -, j, within, y', same, ⟨low, high⟩, -, value⟩ :=
      seam_row_source given room shaped filled inside straight place.1.1 place.2 first last seam
    have there := given j within
    have column : l.column j = l.column i := by
      have := (Layout.pex_eq there).symm.trans (same.trans (Layout.pex_eq here))
      exact_mod_cast this
    have left : l.left j = l.left i := by simp only [Layout.left, column]
    have breadth := Layout.breadth_congr column
    have start' := (Layout.start_eq there).2
    have top' := Layout.yend_eq words there
    have has' : (before j).HasPoint x y' z := by
      rw [hasPoint_iff given room shaped within]
      have := Layout.bottom_range within
      omega
    refine ⟨(meshes j).globalY y', ?_, fun low high => by omega⟩
    rw [value, value_sideways given room shaped filled sampled within has' (by omega) (by omega), left]

end Arrivals

namespace Mesh

/-- The number of seam cells, by the sizes of their regions. -/
def seamCells (m : Mesh α) : Int :=
  ((m.guardRegions.filter fun r => decide (r.kind = .seam)).map Region.size).sum

/-- The number of values in seam cells. -/
def seamValues (m : Mesh α) : Nat :=
  ((m.guardRegions.filter fun r => !r.isBoundary).map fun r => r.cells.length).sum * m.localNz.toNat

/-- Where all seam cells fit, as many are counted as there are, and none that does not fit. -/
theorem countSeams_ok {m : Mesh α} {columns rows : Field α}
    (fits : ∀ r ∈ m.guardRegions, r.kind = .seam → ∀ c ∈ r.cells, ∀ z, 0 ≤ z → z < m.localNz →
      ∃ column row, columns.get c.1 c.2 z = .ok column ∧ rows.get c.1 c.2 z = .ok row ∧
        m.seamCellFits r c.1 c.2 column row = true) :
    m.countSeams columns rows = .ok (m.seamValues, 0) := by
  let cells := (m.guardRegions.filter fun r => !r.isBoundary).flatMap fun r => r.cells.flatMap fun c =>
    (Index.span 0 (m.localNz - 1)).map fun z => (r, c.1, c.2, z)
  have length : cells.length = m.seamValues := by
    have depth : (m.localNz - 1 + 1 - 0).toNat = m.localNz.toNat := by omega
    simp only [cells, List.length_flatMap, List.length_map, Index.length_span, depth, List.map_const',
      List.sum_replicate, smul_eq_mul, seamValues, List.sum_map_mul_right]
  have each : cells.mapM (fun c => do
      let column ← columns.get c.2.1 c.2.2.1 c.2.2.2
      let row ← rows.get c.2.1 c.2.2.1 c.2.2.2
      return m.seamCellFits c.1 c.2.1 c.2.2.1 column row) = .ok (cells.map fun _ => true) := by
    refine mapM_ok fun c member => ?_
    obtain ⟨r, seam, cell, visited, z, height, rfl⟩ : ∃ r ∈ m.guardRegions.filter (fun r => !r.isBoundary),
        ∃ cell ∈ r.cells, ∃ z ∈ Index.span 0 (m.localNz - 1), (r, cell.1, cell.2, z) = c := by
      simpa only [cells, List.mem_flatMap, List.mem_map] using member
    obtain ⟨member, kind⟩ := List.mem_filter.mp seam
    obtain ⟨low, high⟩ := Index.mem_span.mp height
    obtain ⟨column, row, first, second, fit⟩ :=
      fits r member (Region.isBoundary_iff.mp kind) cell visited z low (by omega)
    exact Outcome.bind_eq_ok.mpr ⟨column, first, Outcome.bind_eq_ok.mpr ⟨row, second, congrArg Except.ok fit⟩⟩
  refine Outcome.bind_eq_ok.mpr ⟨_, each, ?_⟩
  have none : (cells.map fun _ => true).filter (fun fit => !fit) = [] := by simp
  rw [none, List.length_map, length]
  rfl

end Mesh

namespace Layout

variable {l : Layout α} {i : Nat} {m : Mesh α} {x y : Int}

omit [Scalar α] in
/-- A region reports as many cells as it is walked in. -/
theorem length_region_cells (given : l.Assigns i m) (room : m.HasRoom) {r : Region} (member : r ∈ m.guardRegions) :
    (r.cells.length : Int) = r.size := by
  have words := inWords_of_room given room
  have few := (counted_of_room given room).cells r member
  obtain ⟨⟨side, rfl⟩, -⟩ := Mesh.mem_guardRegions.mp member
  have count := Region.length_columns (r := m.regionOn side)
  rw [(Region.cells_walk (region_words words given side)).1, count]
  exact (Index.wrap_of_fits (by rw [Index.wordEnd_eq]; omega) few).symm

omit [Scalar α] in
/-- What is reported as checked are the values in the cells of the seams. -/
theorem seamValues_eq (given : l.Assigns i m) (room : m.HasRoom) : (m.seamValues : Int) = m.localNz * m.seamCells := by
  have deep : ((m.localNz.toNat : Nat) : Int) = m.localNz := by
    have := l.depth
    rw [Int.toNat_of_nonneg]
    rw [localNz_eq given]
    omega
  have kinds : (m.guardRegions.filter fun r => !r.isBoundary) =
      m.guardRegions.filter fun r => decide (r.kind = .seam) :=
    List.filter_congr fun r _ => by rw [Bool.eq_iff_iff, Region.isBoundary_iff, decide_eq_true_eq]
  have sizes : ((m.guardRegions.filter fun r => decide (r.kind = .seam)).map Region.size) =
      ((m.guardRegions.filter fun r => decide (r.kind = .seam)).map fun r => r.cells.length).map Nat.cast := by
    rw [List.map_map]
    exact List.map_congr_left fun r member => (length_region_cells given room (List.mem_filter.mp member).1).symm
  rw [Mesh.seamValues, Mesh.seamCells, kinds, sizes, Nat.cast_mul, deep, mul_comm]
  push_cast
  rfl

omit [Scalar α] in
/-- A column differs by whole turns from the one that holds its values. -/
theorem columnAt_turns (l : Layout α) (column : Int) : l.shape.mx ∣ l.shape.columnAt column - column := by
  unfold GridShape.columnAt
  split
  · refine ⟨-((column - l.shape.mxg) / l.shape.mx), ?_⟩
    have := Int.mul_ediv_add_emod (column - l.shape.mxg) l.shape.mx
    rw [mul_neg]
    omega
  · simp

theorem seamCellFits_of_numbers (words : l.InWords) (given : l.Assigns i m) {limit : Int}
    (counts : Scalar.Counts α limit) (few : l.shape.mx + 2 * l.shape.mxg ≤ limit) {side : Side}
    (visited : (l.targetBlock i side).Contains x y)
    (low : 0 ≤ x) (high : x < l.breadth i + 2 * l.shape.mxg) {row : Int}
    (beside : m.ystart ≤ y → y ≤ m.yend → row = m.globalY y) :
    m.seamCellFits (m.regionOn side) x y (Scalar.ofInt (l.shape.columnAt (m.globalX x))) (Scalar.ofInt row) = true := by
  have wide := l.left_range i
  have guards := l.guards
  have globalX : m.globalX x = x + l.left i := globalX_eq words given low (by rw [localNx_eq words given]; exact high)
  have range : 0 ≤ l.shape.columnAt (m.globalX x) ∧ l.shape.columnAt (m.globalX x) ≤ limit := by
    unfold GridShape.columnAt
    split
    · have := Int.emod_nonneg (m.globalX x - l.shape.mxg) (show l.shape.mx ≠ 0 by omega)
      have := Int.emod_lt_of_pos (m.globalX x - l.shape.mxg) (show 0 < l.shape.mx by omega)
      omega
    · omega
  have turned := counts.turned (l.shape.columnAt (m.globalX x)) (m.globalX x) l.shape.mx range.1 range.2 (by omega)
    (by omega) (by omega) (by omega) (l.columnAt_turns _)
  have across : (m.regionOn side).side.isX = true → row = m.globalY y := by
    intro along
    have start := (start_eq given).2
    have top := yend_eq words given
    cases side <;> simp only [targetBlock, Block.Contains] at visited
    · exact beside (by omega) (by omega)
    · exact beside (by omega) (by omega)
    all_goals simp [Mesh.regionOn, Mesh.guardRegion, Region.restart, RegionSide.isX] at along
  simp only [Mesh.seamCellFits, counts.defined, shape_eq given, turned, Bool.not_false, Bool.true_and,
    Bool.not_eq_true', Bool.and_eq_false_iff]
  cases along : (m.regionOn side).side.isX with
  | false => exact .inl rfl
  | true => exact .inr (across along ▸ counts.near _)

end Layout

section Check

variable {l : Layout α} {meshes : Nat → Mesh α} {ranks : Nat → Rank α}

/-- All ranks of a grid count their seam values together, and all of them fit. -/
theorem Together.checkSeams (given : ∀ i < l.count, l.Assigns i (meshes i)) (room : ∀ i < l.count, (meshes i).HasRoom)
    (own : ∀ i < l.count, (ranks i).mesh = meshes i) (straight : l.shape.twistShift = false) {limit : Int}
    (counts : Scalar.Counts α limit) (few : l.shape.mx + 2 * l.shape.mxg ≤ limit) :
    Together l meshes (fun _ => RankM.checkSeams) ranks fun i => (.ok ((meshes i).seamValues, 0), ranks i) := by
  have made (i : Nat) (inside : i < l.count) (value : Int → Int → α) :=
    Layout.seamField_values (given i inside) (room i inside) value
  have : Nonempty (Field α) := ⟨⟨0, 0, 0, #[], .centre, false, rfl⟩⟩
  choose! columns columnsMade columnsShaped columnsValues using fun i (inside : i < l.count) =>
    made i inside fun x _ => Scalar.ofInt ((meshes i).globalX x)
  choose! rows rowsMade rowsShaped rowsValues using fun i (inside : i < l.count) =>
    made i inside fun _ y => Scalar.ofInt ((meshes i).globalY y)
  have ready : Staged l meshes 2 fun i => [columns i, rows i] := by
    refine ⟨given, room, fun _ _ => rfl, fun i inside f member => ?_⟩
    simp only [List.mem_cons, List.not_mem_nil, or_false] at member
    rcases member with rfl | rfl
    · exact columnsShaped i inside
    · exact rowsShaped i inside
  have two (i : Nat) (inside : i < l.count) :
      ∃ c r, Mesh.afterY meshes (Mesh.afterX meshes fun i => [columns i, rows i]) i = [c, r] :=
    List.length_eq_two.mp (ready.afterX.phase_lines inside _).1
  choose! columns' rows' left using two
  have filledColumns : Filled l.count meshes columns columns' :=
    ready.filled (k := 0) (fun _ _ => rfl) fun i inside => congrArg (·[0]?) (left i inside)
  have filledRows : Filled l.count meshes rows rows' :=
    ready.filled (k := 1) (fun _ _ => rfl) fun i inside => congrArg (·[1]?) (left i inside)
  have sampledColumns : ∀ j < l.count, (meshes j).Samples (fun column _ _ => Scalar.ofInt column) (columns j) :=
    fun j within x y z has => (columnsValues j within x y z has).2
  have sampledRows : ∀ j < l.count, (meshes j).Samples (fun _ row _ => Scalar.ofInt row) (rows j) :=
    fun j within x y z has => (rowsValues j within x y z has).2
  have counted (i : Nat) (inside : i < l.count) :
      (meshes i).countSeams (columns' i) (rows' i) = .ok ((meshes i).seamValues, 0) := by
    have here := given i inside
    have words := Layout.inWords_of_room here (room i inside)
    refine Mesh.countSeams_ok fun r member seam cell visited z low high => ?_
    obtain ⟨⟨side, rfl⟩, -⟩ := Mesh.mem_guardRegions.mp member
    have contained := (Layout.mem_region_cells words here).mp visited
    have target (f : Field α) (shaped : f.extents = (meshes i).extents) : f.HasPoint cell.1 cell.2 z := by
      refine ⟨Layout.target_within here (room i inside) shaped side _ _ contained, low, ?_⟩
      rwa [(Layout.sizes_eq here (room i inside) shaped).2.2, ← Layout.localNz_eq here]
    have seamed : (meshes i).Seam cell.1 cell.2 :=
      ⟨_, member, seam, Region.contains_iff.mpr (by rwa [Layout.region_block words here])⟩
    have point := target _ (columnsShaped i inside)
    have point' := target _ (rowsShaped i inside)
    have place := (Layout.hasColumn_iff here (room i inside) (columnsShaped i inside)).mp point.1
    obtain ⟨-, column, -⟩ :=
      value_seam given room columnsShaped filledColumns sampledColumns inside straight point seamed
    obtain ⟨row, value, beside⟩ :=
      value_seam given room rowsShaped filledRows sampledRows inside straight point' seamed
    have reads {f g : Field α} (alike : Field.Alike f g) (shaped : f.extents = (meshes i).extents)
        (has : f.HasPoint cell.1 cell.2 z) : g.get cell.1 cell.2 z = .ok (g.value cell.1 cell.2 z) :=
      Field.get_eq (alike.fits (Layout.ofShape_of_room here (room i inside) shaped).2) (alike.hasPoint.mpr has)
    refine ⟨_, _, reads (filledColumns.alike i inside) (columnsShaped i inside) point,
      reads (filledRows.alike i inside) (rowsShaped i inside) point', ?_⟩
    rw [column, value]
    exact Layout.seamCellFits_of_numbers words here counts few contained place.1.1 place.1.2 beside
  have asked : Together l meshes (fun _ => RankM.mesh) ranks fun i => (.ok (meshes i), ranks i) :=
    .alone fun i inside => own i inside ▸ .here _
  have first : Together l meshes
      (fun i => RankM.ofOutcome ((meshes i).seamField fun x _ => Scalar.ofInt ((meshes i).globalX x))) ranks
      fun i => (.ok (columns i), ranks i) := .alone fun i inside => RankM.ofOutcome_path (columnsMade i inside) _
  have second : Together l meshes
      (fun i => RankM.ofOutcome ((meshes i).seamField fun _ y => Scalar.ofInt ((meshes i).globalY y))) ranks
      fun i => (.ok (rows i), ranks i) := .alone fun i inside => RankM.ofOutcome_path (rowsMade i inside) _
  have exchanged : Together l meshes (fun i => RankM.exchanged [columns i, rows i]) ranks
      fun i => (.ok [columns' i, rows' i], ranks i) :=
    (Together.exchanged ready (by decide) own).congr fun i inside => by rw [left i inside]
  have last : Together l meshes (fun i => RankM.ofOutcome ((meshes i).countSeams (columns' i) (rows' i))) ranks
      fun i => (.ok ((meshes i).seamValues, 0), ranks i) :=
    .alone fun i inside => RankM.ofOutcome_path (counted i inside) _
  exact asked.bind (first.bind (second.bind (exchanged.bind last)))

end Check

/-- On every grid without twists whose blocks fit into storage the check of the seams ends on all ranks in every
interleaving, counts all values of the seam cells and finds no wrong one. -/
theorem seam_check_finds_nothing (source : GridSource α) (options : Options α) {count : Nat} {meshes : Nat → Mesh α}
    {warnings : Nat → List String} {ranks : Nat → Rank α}
    (loaded : ∀ i < count, Mesh.load source options ⟨i, count⟩ = .ok (meshes i, warnings i))
    (straight : ∀ i < count, (meshes i).shape.twistShift = false) (room : ∀ i < count, (meshes i).HasRoom)
    (own : ∀ i < count, (ranks i).mesh = meshes i) {limit : Int} (counts : Scalar.Counts α limit)
    (few : ∀ i < count, (meshes i).shape.mx + 2 * (meshes i).shape.mxg ≤ limit) :
    ∃ checked : Nat → Nat,
      (∀ i < count, (checked i : Int) = (meshes i).localNz * (meshes i).seamCells) ∧
      EndsIn (together count ranks fun _ => RankM.checkSeams) fun i => (.ok (checked i, 0), ranks i) := by
  rcases Nat.eq_zero_or_pos count with rfl | some_
  · exact ⟨fun _ => 0, by simp, endsIn_empty _ rfl rfl⟩
  · obtain ⟨l, rfl, assigned⟩ := Layout.of_load (loaded 0 some_)
    have given (i : Nat) (inside : i < l.count) := assigned i inside _ _ (loaded i inside)
    have shape := Layout.shape_eq (given 0 some_)
    refine ⟨fun i => (meshes i).seamValues, fun i inside => Layout.seamValues_eq (given i inside) (room i inside), ?_⟩
    exact (Together.checkSeams given room own (shape ▸ straight 0 some_) counts (shape ▸ few 0 some_)).ends given room

/-- Exact arithmetic counts without limit. -/
theorem Exact.counts (limit : Int) : Scalar.Counts ℝ limit where
  defined _ := rfl
  near n := by
    change decide (((1 : Nat) : ℝ) / 10 ^ 9 < |(n : ℝ) - n|) = false
    rw [sub_self, abs_zero, decide_eq_false_iff_not]
    norm_num
  turned m n turn _ _ _ _ positive _ divides := by
    obtain ⟨times, same⟩ := divides
    have nonzero : (turn : ℝ) ≠ 0 := by exact_mod_cast positive.ne'
    have apart : (m : ℝ) - n = turn * times := by exact_mod_cast same
    have rounded : Scalar.roundEven (times : ℝ) = times := by
      simp only [Scalar.roundEven, Int.fract_intCast]
      rw [if_neg]
      · exact congrArg Int.cast (round_intCast times)
      · norm_num
    have none : Scalar.remainder ((m : ℝ) - n) turn = 0 := by
      rw [Scalar.remainder, apart, mul_div_cancel_left₀ _ nonzero, rounded]
      change (turn : ℝ) * times - times * turn = 0
      ring
    change decide (((1 : Nat) : ℝ) / 10 ^ 9 < |Scalar.remainder ((m : ℝ) - n) turn - ((0 : Int) : ℝ)|) = false
    rw [none]
    norm_num

/-! The plate of single points on one rank, which is its own neighbour in y. -/

theorem PartialWhole.counts (limit : Int) : Scalar.Counts PartialWhole limit where
  defined _ := rfl
  near n := by
    change decide ((1 / 10 ^ 9 : Int) < ((n - n).natAbs : Int)) = false
    simp
  turned m n turn _ _ _ _ positive _ divides := by
    have quotient : (⟨some (m - n)⟩ : PartialWhole) / ⟨some turn⟩ = ⟨some ((m - n) / turn)⟩ :=
      if_neg fun (zero : some turn = some 0) => positive.ne' (Option.some.inj zero)
    have none : Scalar.remainder (⟨some (m - n)⟩ : PartialWhole) ⟨some turn⟩ = ⟨some 0⟩ := by
      rw [Scalar.remainder, quotient]
      change (⟨some (m - n - (m - n) / turn * turn)⟩ : PartialWhole) = _
      rw [Int.ediv_mul_cancel divides, Int.sub_self]
    change Scalar.lt _ (Scalar.abs (Scalar.remainder (⟨some (m - n)⟩ : PartialWhole) ⟨some turn⟩ - 0)) = false
    rw [none]
    decide

theorem load_plate : ∃ m, Mesh.load plateSource Options.empty ⟨0, 1⟩ = .ok (m, []) ∧ m.HasRoom ∧
    m.shape = plateShape ∧ m.localNz * m.seamCells = 24 := by
  refine ⟨_, Mesh.load_of_steps read_plate settle_plate rfl rfl rfl rfl rfl rfl defaults_empty rfl transformName_empty,
    ?_, rfl, ?_⟩
  · decide
  · decide +kernel

theorem seam_check_plate : ∃ (m : Mesh PartialWhole) (checked : Nat → Nat),
    Mesh.load plateSource Options.empty ⟨0, 1⟩ = .ok (m, []) ∧ checked 0 = 24 ∧
    EndsIn (together 1 (fun _ => Rank.ofMesh m []) fun _ => RankM.checkSeams)
      fun i => (.ok (checked i, 0), Rank.ofMesh m []) := by
  obtain ⟨m, loaded, room, shape, cells⟩ := load_plate
  obtain ⟨checked, counted, ends⟩ := @seam_check_finds_nothing _ _ plateSource Options.empty 1 (fun _ => m)
    (fun _ => []) (fun _ => Rank.ofMesh m []) (fun i inside => by rwa [Nat.lt_one_iff.mp inside])
    (fun _ _ => by rw [shape]; rfl) (fun _ _ => room) (fun _ _ => rfl) 6 (PartialWhole.counts 6) fun _ _ => by rw [shape]; decide
  refine ⟨m, checked, loaded, ?_, ends⟩
  have all := (counted 0 Nat.one_pos).trans cells
  exact_mod_cast all

/-! A grid of more rows than there is storage for. -/

def towerSource : GridSource Whole := ⟨[("nx", ⟨6⟩), ("ny", ⟨70368744177664⟩)], [], []⟩

def towerShape : GridShape Whole :=
  { nx := 6, ny := 70368744177664, nz := 1, mxg := 2, myg := 2, zMin := ⟨0⟩, zMax := ⟨1⟩
    topology := .rectangular 70368744177664 true, shiftAngle := none, twistShift := false, periodicX := false
    staggerGrids := false, shiftXderivs := false, incIntShear := false }

theorem read_tower : GridShape.read towerSource Options.empty = .ok (towerShape, []) := by
  simp only [GridShape.read, gridWhole, GridShape.readTopology, GridShape.readShiftAngle, Options.whole_empty,
    Options.flag_empty, Options.real_empty, Options.isSet_empty]
  rfl

theorem settle_tower : towerShape.settleSplit Options.empty 1 = .ok 1 := by
  simp only [GridShape.settleSplit, Options.isSet_empty]
  rfl

theorem load_tower : ∃ m, Mesh.load towerSource Options.empty ⟨0, 1⟩ = .ok (m, []) ∧ m.shape.twistShift = false ∧
    ∀ value, m.seamField value = .error .outOfRange :=
  ⟨_, Mesh.load_of_steps read_tower settle_tower rfl rfl rfl rfl rfl rfl defaults_empty rfl transformName_empty, rfl,
    fun _ => rfl⟩

theorem tower_unchecked : ∃ m, Mesh.load towerSource Options.empty ⟨0, 1⟩ = .ok (m, []) ∧ m.shape.twistShift = false ∧
    ¬ ∃ checked : Nat → Nat, EndsIn (together 1 (fun _ => Rank.ofMesh m []) fun _ => RankM.checkSeams)
      fun i => (.ok (checked i, 0), Rank.ofMesh m []) := by
  obtain ⟨m, loaded, straight, full⟩ := load_tower
  refine ⟨m, loaded, straight, ?_⟩
  rintro ⟨checked, ends⟩
  -- the first field does not fit, so nothing is sent
  have start : together 1 (fun _ => Rank.ofMesh m []) (fun _ => RankM.checkSeams) =
      ⟨[.finished (.error .outOfRange, Rank.ofMesh m [])], MailBox.empty⟩ := by
    have failed : (RankM.ofOutcome (m.seamField fun x _ => Scalar.ofInt (m.globalX x))).run.run (Rank.ofMesh m []) =
        .finished (.error .outOfRange, Rank.ofMesh m []) := by
      rw [full]
      rfl
    have checks : (RankM.checkSeams (α := Whole)).run.run (Rank.ofMesh m []) =
        .finished (.error .outOfRange, Rank.ofMesh m []) := by
      rw [RankM.checkSeams, RankM.run_bind, RankM.mesh_run]
      change (RankM.ofOutcome (m.seamField fun x _ => Scalar.ofInt (m.globalX x)) >>= _).run.run _ = _
      rw [RankM.run_bind, failed]
      rfl
    rw [together, List.range_one, List.map_singleton, checks]
  rw [start] at ends
  rcases ends _ .refl with ⟨next, moved⟩ | ⟨ended, -⟩
  · obtain @⟨_, _, _, p, q, rank, found, stepped⟩ := moved
    obtain ⟨within, rfl⟩ := List.getElem?_eq_some_iff.mp found
    obtain rfl : rank = 0 := Nat.lt_one_iff.mp within
    cases stepped
  · have first := congrArg (·[0]?) ended
    simp at first

end HaloMesh
