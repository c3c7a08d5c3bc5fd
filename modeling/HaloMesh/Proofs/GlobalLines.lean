import HaloMesh.Proofs.HaloFilling
import HaloMesh.Proofs.LineDerivatives

/-! Lines of the whole grid. A field that holds the same global data on all ranks holds, once its guard cells are
filled, the values of one line of the grid around every interior point, whatever block the point lies in. -/

namespace HaloMesh

variable {α : Type}

namespace Topology

variable {t : Topology} {ny : Int} {up inner : Bool} {row start stop : Int}

/-- The row some steps ahead, counted without regard to the branch cuts. -/
def ahead (up : Bool) (row : Int) (steps : Nat) : Int := if up then row + steps else row - steps

theorem walk_zero : t.walk up inner 0 row = some row := by cases up <;> rfl

theorem walk_succ (steps : Nat) :
    t.walk up inner (steps + 1) row = (t.walk up inner steps row).bind fun k => (t.step up k inner).row := by
  cases up <;> rfl

theorem walk_add (first second : Nat) :
    t.walk up inner (first + second) row = (t.walk up inner first row).bind (t.walk up inner second) := by
  induction second with
  | zero =>
    rw [Nat.add_zero]
    cases t.walk up inner first row with
    | none => rfl
    | some k => exact walk_zero.symm
  | succ second ih =>
    rw [← Nat.add_assoc, walk_succ, ih, Option.bind_assoc]
    exact congrArg _ (funext fun k => (walk_succ second).symm)

/-- A walk that stays between two branch cuts goes from row to row. -/
theorem walk_within (proper : t.Proper ny) (uncut : t.Uncut start stop) (low : 0 ≤ start) (high : stop ≤ ny)
    (inside : start ≤ row ∧ row < stop) (steps : Nat)
    (stays : start ≤ ahead up row steps ∧ ahead up row steps < stop) :
    t.walk up inner steps row = some (ahead up row steps) := by
  have next (k : Int) (first : start ≤ k) (last : k + 1 < stop) : t.up k inner = ⟨some (k + 1), false⟩ := by
    apply up_within proper (by omega) (by omega)
    intro cut
    have := uncut _ cut
    omega
  induction steps with
  | zero =>
    rw [walk_zero, ahead]
    cases up <;> simp
  | succ steps ih =>
    cases up with
    | true =>
      simp only [ahead, ↓reduceIte, Nat.cast_add, Nat.cast_one] at stays ih ⊢
      rw [walk_succ, ih (by omega), Option.bind_some, step, if_pos rfl, next _ (by omega) (by omega)]
      simp only [Option.some.injEq]
      omega
    | false =>
      simp only [ahead, Bool.false_eq_true, ↓reduceIte, Nat.cast_add, Nat.cast_one] at stays ih ⊢
      have forth := next (row - steps - 1) (by omega) (by omega)
      rw [up_eq_iff_down_eq proper (by omega) (by omega) (by omega) (by omega), Int.sub_add_cancel] at forth
      rw [walk_succ, ih (by omega), Option.bind_some, step, if_neg (by decide), forth]
      simp only [Option.some.injEq]
      omega

theorem walk_ended (ended : (t.step up row inner).row = none) {steps : Nat} (some_ : 1 ≤ steps) :
    t.walk up inner steps row = none := by
  obtain ⟨n, rfl⟩ : ∃ n, steps = 1 + n := ⟨steps - 1, by omega⟩
  have first : t.walk up inner 1 row = none := by rw [walk_succ, walk_zero, Option.bind_some, ended]
  rw [walk_add, first]
  rfl

end Topology

namespace GridShape

variable (g : GridShape α)

/-- The column that holds the values of a global one: without boundary in x the interior columns repeat. -/
def columnAt (column : Int) : Int := if g.periodicX then g.mxg + (column - g.mxg) % g.mx else column

/-- The row so many steps up or down the field line of a column. Beyond the end of the line rows are counted on. -/
def rowAt (column row : Int) (up : Bool) (steps : Nat) : Int :=
  (g.topology.walk up (decide (column < g.topology.separatrix)) steps row).getD (Index.wrap (Topology.ahead up row steps))

/-- Global data on the line through a point, by the distance from the point. -/
def lineOf (data : Int → Int → Int → α) (axis : Axis) (column row z j : Int) : α :=
  match axis with
  | .x => data (g.columnAt (column + j)) row z
  | .y => data column (g.rowAt column row (decide (0 ≤ j)) j.natAbs) z
  | .z => data column row ((z + j) % g.nz)

end GridShape

namespace Layout

variable {l : Layout α} {i : Nat} {m : Mesh α} {x y : Int}

theorem interior_unseamed (words : l.InWords) (given : l.Assigns i m) (interior : m.isInterior x y = true) :
    ¬ m.Seam x y := by
  intro seam
  obtain ⟨side, d, -, contained⟩ := (seam_iff words given).mp seam
  have inside := (isInterior_iff words given).mp interior
  cases side <;> simp only [targetBlock, Block.Contains] at contained <;> omega

/-- In a grid without boundary in x every guard cell beside an interior row is a seam. -/
theorem periodic_seam (words : l.InWords) (given : l.Assigns i m) (periodic : l.shape.periodicX = true)
    (column : 0 ≤ x ∧ x < l.breadth i + 2 * l.shape.mxg) (row : l.shape.myg ≤ y ∧ y < l.shape.myg + l.height i)
    (unseamed : ¬ m.Seam x y) : l.shape.mxg ≤ x ∧ x < l.shape.mxg + l.breadth i := by
  have across : (∃ d, m.neighbour? .xIn = some d) ∧ ∃ d, m.neighbour? .xOut = some d := by
    obtain ⟨-, _, _, _, _, _, -, -, rfl⟩ := given
    simp [Mesh.neighbour?, block, periodic]
  obtain ⟨⟨left, inward⟩, right, outward⟩ := across
  rw [seam_iff words given] at unseamed
  by_contra guard
  apply unseamed
  rcases Int.lt_or_le x l.shape.mxg with below | above
  · exact ⟨.xIn, left, inward, by simp only [targetBlock, Block.Contains]; omega⟩
  · exact ⟨.xOut, right, outward, by simp only [targetBlock, Block.Contains]; omega⟩

theorem guardRow_eq (words : l.InWords) (given : l.Assigns i m) (up : Bool) (steps : Nat) :
    m.guardRow up steps = if up then l.shape.myg + l.height i - 1 + steps else l.shape.myg - steps := by
  rw [Mesh.guardRow, yend_eq words given, (start_eq given).2]

theorem globalX_interior (words : l.InWords) (given : l.Assigns i m) (interior : m.isInterior x y = true) :
    m.globalX x = x + l.left i := by
  have guards := l.guards
  obtain ⟨column, -⟩ := (isInterior_iff words given).mp interior
  exact globalX_eq words given (by omega) (by rw [localNx_eq words given]; omega)

theorem globalY_interior (words : l.InWords) (given : l.Assigns i m) (low : l.shape.myg ≤ y)
    (high : y < l.shape.myg + l.height i) : m.globalY y = y - l.shape.myg + l.bottom i :=
  globalY_eq words given ((start_eq given).2 ▸ low) (by rw [yend_eq words given]; omega)

/-- Blocks above one another have the same columns. -/
theorem interior_above (words : l.InWords) (given : l.Assigns i m) {j : Nat} {n : Mesh α} (given' : l.Assigns j n)
    (same : n.pex = m.pex) (column : l.shape.mxg ≤ x ∧ x < l.shape.mxg + l.breadth i) (low : n.ystart ≤ y)
    (high : y ≤ n.yend) : n.isInterior x y = true ∧ n.globalX x = m.globalX x := by
  rw [pex_eq given', pex_eq given] at same
  have place : l.column j = l.column i := by exact_mod_cast same
  have breadth := breadth_congr place
  have left : l.left j = l.left i := by simp only [Layout.left, place]
  have top := yend_eq words given'
  have guards := l.guards
  rw [(start_eq given').2] at low
  have interior : n.isInterior x y = true := by
    rw [isInterior_iff words given', breadth]
    exact ⟨column, low, by omega⟩
  refine ⟨interior, ?_⟩
  rw [globalX_interior words given' interior, globalX_eq words given (by omega) (by rw [localNx_eq words given]; omega), left]

section Rows

variable (words : l.InWords) (given : l.Assigns i m) (row : l.shape.myg ≤ y ∧ y < l.shape.myg + l.height i) {up : Bool}
  {steps : Nat}
include words given

theorem edge_inside (up : Bool) : l.shape.myg ≤ m.edgeRow up ∧ m.edgeRow up < l.shape.myg + l.height i := by
  have tall := bottom_range given.1
  have guards := l.guards
  have top := yend_eq words given
  have start := (start_eq given).2
  cases up <;> simp only [Mesh.edgeRow, Bool.false_eq_true, ↓reduceIte] <;> omega

include row

/-- Within a block a field line goes from row to row. -/
theorem walk_inside (stays : l.shape.myg ≤ Topology.ahead up y steps ∧ Topology.ahead up y steps < l.shape.myg + l.height i)
    {inner : Bool} :
    l.shape.topology.walk up inner steps (m.globalY y) = some (m.globalY (Topology.ahead up y steps)) := by
  have tall := bottom_range given.1
  have stop : l.rows.bound (l.row i + 1) = l.bottom i + l.height i := by simp only [height, bottom]; omega
  have uncut : l.shape.topology.Uncut (l.bottom i) (l.bottom i + l.height i) := stop ▸ l.block_uncut (l.row i)
  have shift : Topology.ahead up (y - l.shape.myg + l.bottom i) steps =
      Topology.ahead up y steps - l.shape.myg + l.bottom i := by
    cases up <;> simp only [Topology.ahead, Bool.false_eq_true, ↓reduceIte] <;> omega
  rw [globalY_interior words given row.1 row.2, globalY_interior words given stays.1 stays.2,
    Topology.walk_within l.proper uncut (by omega) (by omega) (by omega) steps (by rw [shift]; omega), shift]

/-- Steps out of a block go to its edge, and on from there. -/
theorem steps_out (leaves : ¬ (l.shape.myg ≤ Topology.ahead up y steps ∧
      Topology.ahead up y steps < l.shape.myg + l.height i)) :
    ∃ first rest : Nat, steps = first + rest ∧ 1 ≤ rest ∧ Topology.ahead up y first = m.edgeRow up ∧
      Topology.ahead up y (first + rest) = m.guardRow up rest := by
  have top := yend_eq words given
  have start := (start_eq given).2
  cases up with
  | true =>
    simp only [Topology.ahead, Mesh.edgeRow, Mesh.guardRow, ↓reduceIte] at leaves ⊢
    exact ⟨(m.yend - y).toNat, steps - (m.yend - y).toNat, by omega, by omega, by omega, by omega⟩
  | false =>
    simp only [Topology.ahead, Mesh.edgeRow, Mesh.guardRow, Bool.false_eq_true, ↓reduceIte] at leaves ⊢
    exact ⟨(y - m.ystart).toNat, steps - (y - m.ystart).toNat, by omega, by omega, by omega, by omega⟩

theorem globalY_ahead : m.globalY (Topology.ahead up y steps) = Index.wrap (Topology.ahead up (m.globalY y) steps) := by
  rw [globalY_interior words given row.1 row.2, Mesh.globalY, (offset_eq given).2]
  congr 1
  cases up <;> simp only [Topology.ahead, Bool.false_eq_true, ↓reduceIte] <;> omega

end Rows

/-- A field line ends where a guard row beyond the end of a block is no seam. -/
theorem step_ended (words : l.InWords) (given : l.Assigns i m) {up : Bool} {steps : Nat} (first : 1 ≤ steps)
    (last : steps ≤ l.shape.myg) (low : 0 ≤ x) (high : x < l.breadth i + 2 * l.shape.mxg)
    (unseamed : ¬ m.Seam x (m.guardRow up steps)) :
    (l.shape.topology.step up (l.edge up (l.row i)) (decide (x < (m.link up).split))).row = none := by
  have tall := bottom_range given.1
  have guards := l.guards
  have split := split_eq given up
  have row := guardRow_eq words given up steps
  have contained : (l.targetBlock i (.vertical up (decide (x < (m.link up).split)))).Contains x (m.guardRow up steps) := by
    rw [row, split]
    by_cases inner : x < l.split i <;> cases up <;>
      simp only [inner, decide_true, decide_false, Side.vertical, targetBlock, Block.Contains, Bool.false_eq_true,
        ↓reduceIte] <;> omega
  have present : l.HasSide i (decide (x < (m.link up).split)) := by
    rw [hasSide_iff words, split]
    by_cases inner : x < l.split i <;> simp only [inner, decide_true, decide_false, Bool.false_eq_true, ↓reduceIte] <;> omega
  by_contra goes
  obtain ⟨next, found⟩ := Option.ne_none_iff_exists'.mp goes
  obtain ⟨other, -, beside⟩ := step_enters (row_lt given.1)
    (show l.shape.topology.step up (l.edge up (l.row i)) _ = ⟨some next, _⟩ from congrArg (RowStep.mk · _) found)
  obtain ⟨j, within, column, rfl⟩ := l.exists_rank (l.column_lt i) beside.2.1
  have linked := (assigned_side given up _ _).mpr ⟨present, within, column, beside⟩
  apply unseamed
  rw [seam_iff words given]
  exact ⟨_, _, (m.neighbour?_vertical up _).trans (congrArg Prod.fst linked), contained⟩

/-- The end of a field line, with its column told from the separatrix. -/
theorem edge_ended (words : l.InWords) (given : l.Assigns i m)
    (column : 0 ≤ x ∧ x < l.breadth i + 2 * l.shape.mxg)
    (word : Index.wrap (l.shape.topology.separatrix - l.left i) = l.shape.topology.separatrix - l.left i) {up : Bool}
    {steps : Nat} (first : 1 ≤ steps) (last : steps ≤ l.shape.myg) (unseamed : ¬ m.Seam x (m.guardRow up steps)) :
    (l.shape.topology.step up (m.globalY (m.edgeRow up)) (decide (m.globalX x < l.shape.topology.separatrix))).row =
      none := by
  have guards := l.guards
  have width := localNx_eq words given
  have side : decide (x < (m.link up).split) = decide (m.globalX x < l.shape.topology.separatrix) := by
    rw [decide_eq_decide]
    exact split_separatrix words given up (by omega) (by omega) word
  have ended := step_ended words given first last (by omega) (by omega) unseamed
  rwa [side, ← globalY_edge words given up] at ended

end Layout

/-- A field over the block of a rank holds global data in the interior and beyond the physical boundary. -/
def Mesh.Samples [Scalar α] (m : Mesh α) (data : Int → Int → Int → α) (f : Field α) : Prop :=
  ∀ x y z, f.HasPoint x y z → ¬ m.Seam x y → f.value x y z = data (m.globalX x) (m.globalY y) z

theorem Field.value_of_line [Scalar α] {f g : Field α} {x y x' y' z : Int} (fits : f.Fits) (fits' : g.Fits)
    (has : f.HasPoint x y z) (has' : g.HasPoint x' y' z) (same : g.line x' y' = f.line x y) :
    g.value x' y' z = f.value x y z := by
  have here := getElem?_line fits has
  rw [← same, getElem?_line fits' has'] at here
  exact Option.some.inj here

section Lines

variable [Scalar α] {l : Layout α} {meshes : Nat → Mesh α} {before after : Nat → Field α}
  {data : Int → Int → Int → α} (given : ∀ i < l.count, l.Assigns i (meshes i))
  (room : ∀ i < l.count, (meshes i).HasRoom) (shaped : ∀ i < l.count, (before i).extents = (meshes i).extents)
  (filled : Filled l.count meshes before after) (sampled : ∀ i < l.count, (meshes i).Samples data (before i))
  {i : Nat} (inside : i < l.count) {x y z : Int}

include given room shaped filled inside

/-- Outside the seams a filled field is as it was. -/
theorem value_kept (has : (before i).HasPoint x y z) (unseamed : ¬ (meshes i).Seam x y) :
    (after i).value x y z = (before i).value x y z := by
  have fits := (Layout.ofShape_of_room (given i inside) (room i inside) (shaped i inside)).2
  have alike := filled.alike i inside
  exact Field.value_of_line fits (alike.fits fits) has (alike.hasPoint.mpr has) (filled.kept i inside x y has.1 unseamed)

omit [Scalar α] filled in
theorem hasPoint_iff : (before i).HasPoint x y z ↔
    ((0 ≤ x ∧ x < l.breadth i + 2 * l.shape.mxg) ∧ 0 ≤ y ∧ y < l.height i + 2 * l.shape.myg) ∧ 0 ≤ z ∧ z < l.shape.nz := by
  rw [Field.HasPoint, Layout.hasColumn_iff (given i inside) (room i inside) (shaped i inside),
    (Layout.sizes_eq (given i inside) (room i inside) (shaped i inside)).2.2]

omit [Scalar α] filled in
theorem hasPoint_interior (interior : (meshes i).isInterior x y = true) (point : 0 ≤ z ∧ z < l.shape.nz) :
    (before i).HasPoint x y z := by
  have words := Layout.inWords_of_room (given i inside) (room i inside)
  have there := (Layout.isInterior_iff words (given i inside)).mp interior
  have guards := l.guards
  rw [hasPoint_iff given room shaped inside]
  omega

/-- A guard column beside the interior rows has the value of an interior point in the column that it stands for. -/
theorem seam_column_origin (has : (before i).HasPoint x y z) (seam : (meshes i).Seam x y) (low : l.shape.myg ≤ y)
    (high : y < l.shape.myg + l.height i) : ∃ j < l.count, ∃ x' y', (meshes j).isInterior x' y' = true ∧
      (meshes j).globalX x' = l.shape.columnAt (x + l.left i) ∧ (meshes j).globalY y' = (meshes i).globalY y ∧
      (before j).HasPoint x' y' z ∧ (after i).value x y z = (before j).value x' y' z := by
  have here := given i inside
  have words := Layout.inWords_of_room here (room i inside)
  have place := (hasPoint_iff given room shaped inside).mp has
  have fits (k : Nat) (within : k < l.count) : (before k).Fits :=
    (Layout.ofShape_of_room (given k within) (room k within) (shaped k within)).2
  have alike := filled.alike i inside
  have globalX : (meshes i).globalX x = x + l.left i :=
    Layout.globalX_eq words here place.1.1.1 (by rw [Layout.localNx_eq words here]; exact place.1.1.2)
  obtain ⟨j, within, x', y', interior, row, column, plain, line⟩ := filled.columns i inside x y seam
    ((Layout.start_eq here).2 ▸ low) (by rw [Layout.yend_eq words here]; omega)
  have has' := hasPoint_interior given room shaped within interior place.2
  refine ⟨j, within, x', y', interior, ?_, row, has',
    Field.value_of_line (fits j within) (alike.fits (fits i inside)) has' (alike.hasPoint.mpr has) line⟩
  rw [Layout.shape_eq here, globalX] at column plain
  unfold GridShape.columnAt
  cases periodic : l.shape.periodicX with
  | false => exact plain periodic
  | true => exact column

/-- A guard row beyond the end of a block that is a seam has the values of the row that its field line goes to. The side
of the line is that of its column to the split of the block. -/
theorem seam_row_source (straight : l.shape.twistShift = false) (column : 0 ≤ x ∧ x < l.breadth i + 2 * l.shape.mxg)
    (point : 0 ≤ z ∧ z < l.shape.nz) {up : Bool} {steps : Nat} (first : 1 ≤ steps) (last : steps ≤ l.shape.myg)
    (seam : (meshes i).Seam x ((meshes i).guardRow up steps)) :
    ∃ row, l.shape.topology.walk up (decide (x < ((meshes i).link up).split)) steps
        ((meshes i).globalY ((meshes i).edgeRow up)) = some row ∧
      ∃ j < l.count, ∃ y, (meshes j).pex = (meshes i).pex ∧ ((meshes j).ystart ≤ y ∧ y ≤ (meshes j).yend) ∧
        (meshes j).globalY y = row ∧ (after i).value x ((meshes i).guardRow up steps) z = (after j).value x y z := by
  have here := given i inside
  have words := Layout.inWords_of_room here (room i inside)
  have fits (k : Nat) (within : k < l.count) : (before k).Fits :=
    (Layout.ofShape_of_room (given k within) (room k within) (shaped k within)).2
  have guards := l.guards
  have tall := Layout.bottom_range inside
  have guard := Layout.guardRow_eq words here up steps
  have has : (before i).HasPoint x ((meshes i).guardRow up steps) z := by
    rw [hasPoint_iff given room shaped inside, guard]
    cases up <;> simp only [Bool.false_eq_true, ↓reduceIte] <;> omega
  obtain ⟨row, walked, j, within, y', same, low, high, global, line⟩ :=
    filled.rows i inside up x steps first (Layout.shape_eq here ▸ last) seam
  have there := given j within
  have has' : (before j).HasPoint x y' z := by
    have place : l.column j = l.column i := by
      have := (Layout.pex_eq there).symm.trans (same.trans (Layout.pex_eq here))
      exact_mod_cast this
    have breadth := Layout.breadth_congr place
    have start := (Layout.start_eq there).2
    have top := Layout.yend_eq words there
    rw [hasPoint_iff given room shaped within]
    omega
  have uncrossed : (meshes i).crossed up (decide (x < ((meshes i).link up).split)) x ((after j).line x y') =
      (after j).line x y' := by
    rw [Mesh.crossed, Layout.shape_eq here, straight, Bool.and_false]
    rfl
  rw [Layout.shape_eq here] at walked
  exact ⟨row, walked, j, within, y', same, ⟨low, high⟩, global,
    Field.value_of_line ((filled.alike j within).fits (fits j within)) ((filled.alike i inside).fits (fits i inside))
      ((filled.alike j within).hasPoint.mpr has') ((filled.alike i inside).hasPoint.mpr has) (line.trans uncrossed)⟩

/-- Where words can count the columns up to the separatrix, it tells the side of the line. -/
theorem seam_row_origin (straight : l.shape.twistShift = false)
    (word : Index.wrap (l.shape.topology.separatrix - l.left i) = l.shape.topology.separatrix - l.left i)
    (column : 0 ≤ x ∧ x < l.breadth i + 2 * l.shape.mxg) (point : 0 ≤ z ∧ z < l.shape.nz) {up : Bool} {steps : Nat}
    (first : 1 ≤ steps) (last : steps ≤ l.shape.myg) (seam : (meshes i).Seam x ((meshes i).guardRow up steps)) :
    ∃ row, l.shape.topology.walk up (decide ((meshes i).globalX x < l.shape.topology.separatrix)) steps
        ((meshes i).globalY ((meshes i).edgeRow up)) = some row ∧
      ∃ j < l.count, ∃ y, (meshes j).pex = (meshes i).pex ∧ ((meshes j).ystart ≤ y ∧ y ≤ (meshes j).yend) ∧
        (meshes j).globalY y = row ∧ (after i).value x ((meshes i).guardRow up steps) z = (after j).value x y z := by
  have words := Layout.inWords_of_room (given i inside) (room i inside)
  have guards := l.guards
  have width := Layout.localNx_eq words (given i inside)
  have side : decide (x < ((meshes i).link up).split) = decide ((meshes i).globalX x < l.shape.topology.separatrix) := by
    rw [decide_eq_decide]
    exact Layout.split_separatrix words (given i inside) up (by omega) (by omega) word
  rw [← side]
  exact seam_row_source given room shaped filled inside straight column point first last seam

include sampled

/-- Across the guard columns goes the row of the grid. -/
theorem value_sideways (has : (before i).HasPoint x y z) (low : l.shape.myg ≤ y) (high : y < l.shape.myg + l.height i) :
    (after i).value x y z = data (l.shape.columnAt (x + l.left i)) ((meshes i).globalY y) z := by
  have here := given i inside
  have words := Layout.inWords_of_room here (room i inside)
  have place := (hasPoint_iff given room shaped inside).mp has
  have guards := l.guards
  have wide := l.left_range i
  by_cases seam : (meshes i).Seam x y
  · obtain ⟨j, within, x', y', interior, column, row, has', value⟩ :=
      seam_column_origin given room shaped filled inside has seam low high
    rw [value, sampled j within x' y' z has' (Layout.interior_unseamed words (given j within) interior), column, row]
  · rw [value_kept given room shaped filled inside has seam, sampled i inside x y z has seam,
      Layout.globalX_eq words here place.1.1.1 (by rw [Layout.localNx_eq words here]; exact place.1.1.2)]
    congr 1
    unfold GridShape.columnAt
    split
    next periodic =>
      have inner := Layout.periodic_seam words here periodic place.1.1 ⟨low, high⟩ seam
      rw [Int.emod_eq_of_lt (by omega) (by omega)]
      omega
    next => rfl

/-- A guard row beyond the end of a block holds the row that the field line goes to, or what lies beyond the physical
boundary where the line ends. -/
private theorem value_beyond (straight : l.shape.twistShift = false)
    (word : Index.wrap (l.shape.topology.separatrix - l.left i) = l.shape.topology.separatrix - l.left i)
    (column : l.shape.mxg ≤ x ∧ x < l.shape.mxg + l.breadth i) (point : 0 ≤ z ∧ z < l.shape.nz) (up : Bool) {steps : Nat}
    (first : 1 ≤ steps) (last : steps ≤ l.shape.myg) : (after i).value x ((meshes i).guardRow up steps) z =
      data ((meshes i).globalX x) ((l.shape.topology.walk up (decide ((meshes i).globalX x < l.shape.topology.separatrix))
        steps ((meshes i).globalY ((meshes i).edgeRow up))).getD ((meshes i).globalY ((meshes i).guardRow up steps))) z := by
  have here := given i inside
  have words := Layout.inWords_of_room here (room i inside)
  have guards := l.guards
  have tall := Layout.bottom_range inside
  have width := Layout.localNx_eq words here
  by_cases seam : (meshes i).Seam x ((meshes i).guardRow up steps)
  · obtain ⟨row, walked, j, within, y', same, ⟨low, high⟩, global, value⟩ :=
      seam_row_origin given room shaped filled inside straight word (by omega) point first last seam
    obtain ⟨interior, across⟩ := Layout.interior_above words here (given j within) same column low high
    have unseamed := Layout.interior_unseamed words (given j within) interior
    have has' := hasPoint_interior given room shaped within interior point
    rw [walked, value, value_kept given room shaped filled within has' unseamed, sampled j within x y' z has' unseamed,
      across, global]
    rfl
  · have guard := Layout.guardRow_eq words here up steps
    have has : (before i).HasPoint x ((meshes i).guardRow up steps) z := by
      rw [hasPoint_iff given room shaped inside, guard]
      cases up <;> simp only [Bool.false_eq_true, ↓reduceIte] <;> omega
    rw [Topology.walk_ended (Layout.edge_ended words here (by omega) word first last seam) first,
      value_kept given room shaped filled inside has seam, sampled i inside _ _ z has seam]
    rfl

/-- Across the guard rows go the field lines of the grid. -/
theorem value_ahead (straight : l.shape.twistShift = false)
    (word : Index.wrap (l.shape.topology.separatrix - l.left i) = l.shape.topology.separatrix - l.left i)
    (interior : (meshes i).isInterior x y = true) (point : 0 ≤ z ∧ z < l.shape.nz) (up : Bool) {steps : Nat}
    (near : steps ≤ l.shape.myg) : (after i).value x (Topology.ahead up y steps) z =
      data ((meshes i).globalX x) (l.shape.rowAt ((meshes i).globalX x) ((meshes i).globalY y) up steps) z := by
  have here := given i inside
  have words := Layout.inWords_of_room here (room i inside)
  have guards := l.guards
  obtain ⟨column, row⟩ := (Layout.isInterior_iff words here).mp interior
  by_cases stays : l.shape.myg ≤ Topology.ahead up y steps ∧ Topology.ahead up y steps < l.shape.myg + l.height i
  · have there : (meshes i).isInterior x (Topology.ahead up y steps) = true :=
      (Layout.isInterior_iff words here).mpr ⟨column, stays⟩
    have has : (before i).HasPoint x (Topology.ahead up y steps) z := by
      rw [hasPoint_iff given room shaped inside]
      omega
    have unseamed := Layout.interior_unseamed words here there
    rw [value_kept given room shaped filled inside has unseamed, sampled i inside _ _ z has unseamed, GridShape.rowAt,
      Layout.walk_inside words here row stays]
    rfl
  · -- the walk first goes to the edge of the block
    obtain ⟨first, rest, rfl, some_, edge, guard⟩ := Layout.steps_out words here row stays
    have inner := Layout.edge_inside words here up
    rw [← edge] at inner
    rw [guard, value_beyond given room shaped filled sampled inside straight word column point up some_ (by omega),
      ← guard, Layout.globalY_ahead words here row, GridShape.rowAt, Topology.walk_add,
      Layout.walk_inside words here row inner, edge]
    rfl

/-- Around an interior point, a filled field holds the values of the lines of the grid. -/
theorem along_lineOf (straight : l.shape.twistShift = false)
    (word : Index.wrap (l.shape.topology.separatrix - l.left i) = l.shape.topology.separatrix - l.left i)
    (interior : (meshes i).isInterior x y = true) (point : 0 ≤ z ∧ z < l.shape.nz) (axis : Axis) {j : Int}
    (near : axis = .z ∨ -(meshes i).guards axis ≤ j ∧ j ≤ (meshes i).guards axis) :
    (after i).along axis x y z (axis.coordinate x y z + j) =
      l.shape.lineOf data axis ((meshes i).globalX x) ((meshes i).globalY y) z j := by
  have here := given i inside
  have words := Layout.inWords_of_room here (room i inside)
  have guards := l.guards
  have tall := Layout.bottom_range inside
  have wide := l.left_range i
  obtain ⟨column, row⟩ := (Layout.isInterior_iff words here).mp interior
  have globalX := Layout.globalX_interior words here interior
  have sizes := Layout.sizes_eq here (room i inside) (shaped i inside)
  cases axis with
  | x =>
    have reach := near.resolve_left (by decide)
    simp only [Mesh.guards, Layout.shape_eq here] at reach
    have has : (before i).HasPoint (x + j) y z := by
      rw [hasPoint_iff given room shaped inside]
      omega
    have value := value_sideways given room shaped filled sampled inside has row.1 row.2
    simp only [Field.along, Axis.coordinate, GridShape.lineOf]
    rw [value, globalX, Int.add_right_comm]
  | y =>
    have reach := near.resolve_left (by decide)
    simp only [Mesh.guards, Layout.shape_eq here] at reach
    have value := value_ahead given room shaped filled sampled inside straight word interior point (decide (0 ≤ j))
      (show j.natAbs ≤ l.shape.myg by omega)
    have ahead : Topology.ahead (decide (0 ≤ j)) y j.natAbs = y + j := by
      by_cases up : 0 ≤ j <;> simp only [Topology.ahead, up, decide_true, decide_false, Bool.false_eq_true, ↓reduceIte] <;>
        omega
    rw [ahead] at value
    exact value
  | z =>
    have alike := filled.alike i inside
    have depth : ((after i).nz : Int) = l.shape.nz := by rw [alike.nz]; exact sizes.2.2
    have has : (before i).HasPoint x y ((z + j) % l.shape.nz) := by
      rw [hasPoint_iff given room shaped inside]
      have low := Int.emod_nonneg (z + j) (show l.shape.nz ≠ 0 by omega)
      have high := Int.emod_lt_of_pos (z + j) (show 0 < l.shape.nz by omega)
      omega
    simp only [Field.along, Axis.coordinate, GridShape.lineOf, depth]
    have unseamed := Layout.interior_unseamed words here interior
    exact (value_kept given room shaped filled inside has unseamed).trans (sampled i inside _ _ _ has unseamed)

end Lines

end HaloMesh
