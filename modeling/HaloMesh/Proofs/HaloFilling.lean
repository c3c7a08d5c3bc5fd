import HaloMesh.Proofs.HaloExchange

/-! What an exchange leaves in the guard cells. A guard column beside the interior rows stands for a global
column and gets the values that the owner of that column has in the same global row. A guard row stands for
the row that many steps up or down, and gets what the owner of that row holds after its own x phase. -/

namespace HaloMesh
open Index (Partition)

variable {α : Type}

def Topology.walk (t : Topology) (up inner : Bool) (steps : Nat) (row : Int) : Option Int :=
  if up then t.climb inner steps row else t.descend inner steps row

namespace Mesh

def edgeRow (m : Mesh α) (up : Bool) : Int := if up then m.yend else m.ystart

def guardRow (m : Mesh α) (up : Bool) (steps : Nat) : Int := if up then m.yend + steps else m.ystart - steps

variable [Scalar α]

/-- A line as it crosses the step out of one end of the block, turned in z if the step is a twist. -/
def crossed (m : Mesh α) (up inner : Bool) (x : Int) (line : List α) : List α :=
  if (m.shape.topology.step up (m.globalY (m.edgeRow up)) inner).twist && m.shape.twistShift
  then m.turnLine (if up then -1 else 1) x line else line

end Mesh

/-- What an exchange makes of one field of each rank. -/
structure Filled [Scalar α] (count : Nat) (meshes : Nat → Mesh α) (before after : Nat → Field α) : Prop where
  alike : ∀ i < count, Field.Alike (before i) (after i)
  /-- Interior cells and the guard cells of the physical boundary are as they were. -/
  kept : ∀ i < count, ∀ x y, (before i).HasColumn x y → ¬ (meshes i).Seam x y →
    (after i).line x y = (before i).line x y
  /-- A guard column beside an interior row gets the interior values of the column that it stands for. -/
  columns : ∀ i < count, ∀ x y, (meshes i).Seam x y → (meshes i).ystart ≤ y → y ≤ (meshes i).yend →
    ∃ j < count, ∃ x' y', (meshes j).isInterior x' y' = true ∧ (meshes j).globalY y' = (meshes i).globalY y ∧
      (meshes j).globalX x' = (meshes i).shape.mxg + ((meshes i).globalX x - (meshes i).shape.mxg) % (meshes i).shape.mx ∧
      ((meshes i).shape.periodicX = false → (meshes j).globalX x' = (meshes i).globalX x) ∧
      (after i).line x y = (before j).line x' y'
  /-- A guard row gets, in every column, what the owner of the row that it stands for holds there. The owner's
  row is an interior one, where only the x phase has changed anything. -/
  rows : ∀ i < count, ∀ (up : Bool) (x : Int) (steps : Nat), 1 ≤ steps → steps ≤ (meshes i).shape.myg →
    (meshes i).Seam x ((meshes i).guardRow up steps) →
    let inner := decide (x < ((meshes i).link up).split)
    ∃ row, (meshes i).shape.topology.walk up inner steps ((meshes i).globalY ((meshes i).edgeRow up)) = some row ∧
      ∃ j < count, ∃ y, (meshes j).pex = (meshes i).pex ∧ (meshes j).ystart ≤ y ∧ y ≤ (meshes j).yend ∧
        (meshes j).globalY y = row ∧
        (after i).line x ((meshes i).guardRow up steps) = (meshes i).crossed up inner x ((after j).line x y)
  /-- The columns before the split are those before the separatrix, wherever their distance is a word. -/
  separatrix : ∀ i < count, ∀ up x, 0 ≤ x → x < (meshes i).localNx →
    Index.wrap ((meshes i).shape.topology.separatrix - (meshes i).offsetX) =
      (meshes i).shape.topology.separatrix - (meshes i).offsetX →
    (x < ((meshes i).link up).split ↔ (meshes i).globalX x < (meshes i).shape.topology.separatrix)

def Side.vertical (up inner : Bool) : Side :=
  if up then if inner then .yOutInner else .yOutOuter else if inner then .yInInner else .yInOuter

theorem Mesh.neighbour?_vertical (m : Mesh α) (up inner : Bool) :
    m.neighbour? (.vertical up inner) = ((m.link up).side inner).1 := by cases up <;> cases inner <;> rfl

theorem Mesh.turnOn_vertical (m : Mesh α) (up inner : Bool) : m.turnOn (.vertical up inner) =
    if ((m.link up).side inner).2 && m.shape.twistShift then if up then -1 else 1 else 0 := by
  cases up <;> cases inner <;> rfl

namespace Layout

variable {l : Layout α} {i j : Nat} {m : Mesh α} {side : Side} {x y : Int}

theorem seam_columns (words : l.InWords) (given : l.Assigns i m) (seam : m.Seam x y) (low : m.ystart ≤ y)
    (high : y ≤ m.yend) : ∃ side d, (side = .xIn ∨ side = .xOut) ∧ m.neighbour? side = some d ∧
      (l.targetBlock i side).Contains x y := by
  obtain ⟨side, d, across, inside⟩ := (seam_iff words given).mp seam
  refine ⟨side, d, ?_, across, inside⟩
  rw [(start_eq given).2] at low
  rw [yend_eq words given] at high
  cases side with
  | xIn => exact .inl rfl
  | xOut => exact .inr rfl
  | yOutInner | yOutOuter | yInInner | yInOuter =>
    simp only [targetBlock, Block.Contains] at inside
    omega

theorem seam_rows (words : l.InWords) (given : l.Assigns i m) {up : Bool} {steps : Nat} (first : 1 ≤ steps)
    (seam : m.Seam x (m.guardRow up steps)) : ∃ d,
      m.neighbour? (.vertical up (decide (x < (m.link up).split))) = some d ∧
        (l.targetBlock i (.vertical up (decide (x < (m.link up).split)))).Contains x (m.guardRow up steps) := by
  obtain ⟨side, d, across, inside⟩ := (seam_iff words given).mp seam
  suffices same : side = .vertical up (decide (x < (m.link up).split)) from ⟨d, same ▸ across, same ▸ inside⟩
  have tall := bottom_range given.1
  have guards := l.guards
  have row : m.guardRow up steps =
      if up then l.shape.myg + l.height i - 1 + steps else l.shape.myg - steps := by
    rw [Mesh.guardRow, yend_eq words given, (start_eq given).2]
  rw [row] at inside
  rw [split_eq given]
  cases up <;> cases side <;>
    simp only [targetBlock, Block.Contains, Bool.false_eq_true, ↓reduceIte] at inside <;>
    first
      | omega
      | simp [Side.vertical, show x < l.split i by omega]
      | simp [Side.vertical, show ¬ x < l.split i by omega]

theorem columns_origin (given : l.Assigns i m) {side : Side} (along : side = .xIn ∨ side = .xOut)
    (across : m.neighbour? side = some (j : Int)) (inside : (l.targetBlock i side).Contains x y) :
    let x' := x + (l.offset i j side).1
    l.row j = l.row i ∧ (l.offset i j side).2 = 0 ∧ (l.shape.mxg ≤ x' ∧ x' < l.shape.mxg + l.breadth j) ∧
      x' + l.left j = l.shape.mxg + (x + l.left i - l.shape.mxg) % l.shape.mx ∧
      (l.shape.periodicX = false → x' + l.left j = x + l.left i) := by
  have here := l.left_range i
  have there := l.left_range j
  have guards := l.guards
  have first := Partition.bound_zero l.columns_nonneg
  have last : l.columns.bound l.columns.parts = l.shape.mx := by rw [Partition.bound_parts, l.allColumns]
  rcases along with rfl | rfl
  · obtain ⟨-, rows, beyond⟩ := (assigned_xin given).mp across
    simp only [targetBlock, Block.Contains] at inside
    refine ⟨rows, rfl, by simp only [offset]; omega, ?_⟩
    rcases beyond with ⟨-, next⟩ | ⟨periodic, wrapped, zero⟩
    · have adjoin : l.left i = l.left j + l.breadth j := by
        simp only [breadth, left, next]
        omega
      rw [Int.emod_eq_of_lt (by omega) (by omega)]
      simp only [offset]
      omega
    · have start : l.left i = 0 := by rw [left, zero, first]
      have stop : l.left j + l.breadth j = l.shape.mx := by rw [breadth, wrapped, last]; omega
      have turned : (x + l.left i - l.shape.mxg) % l.shape.mx = x - l.shape.mxg + l.shape.mx := by
        rw [← Int.add_emod_right, Int.emod_eq_of_lt] <;> omega
      rw [turned]
      simp only [offset, periodic, Bool.true_eq_false, false_implies, and_true]
      omega
  · obtain ⟨-, rows, beyond⟩ := (assigned_xout given).mp across
    simp only [targetBlock, Block.Contains] at inside
    refine ⟨rows.symm, rfl, by simp only [offset]; omega, ?_⟩
    rcases beyond with ⟨-, next⟩ | ⟨periodic, wrapped, zero⟩
    · have adjoin : l.left j = l.left i + l.breadth i := by
        simp only [breadth, left, next]
        omega
      rw [Int.emod_eq_of_lt (by omega) (by omega)]
      simp only [offset]
      omega
    · have start : l.left j = 0 := by rw [left, zero, first]
      have stop : l.left i + l.breadth i = l.shape.mx := by rw [breadth, wrapped, last]; omega
      have turned : (x + l.left i - l.shape.mxg) % l.shape.mx = x + l.left i - l.shape.mxg - l.shape.mx := by
        rw [← Int.sub_emod_right, Int.emod_eq_of_lt] <;> omega
      rw [turned]
      simp only [offset, periodic, Bool.true_eq_false, false_implies, and_true]
      omega

/-- No branch cut runs through a block. -/
theorem block_uncut (l : Layout α) (k : Nat) : l.shape.topology.Uncut (l.rows.bound k) (l.rows.bound (k + 1)) := by
  intro cut member
  obtain ⟨other, -, rfl⟩ := l.aligned cut member
  rcases Nat.lt_or_ge k other with later | early
  · exact .inr (Partition.bound_mono l.rows_nonneg later)
  · exact .inl (Partition.bound_mono l.rows_nonneg early)

theorem globalY_edge (words : l.InWords) (given : l.Assigns i m) (up : Bool) :
    m.globalY (m.edgeRow up) = l.edge up (l.row i) := by
  have top := yend_eq words given
  have start := (start_eq given).2
  have tall := bottom_range given.1
  have within : m.ystart ≤ m.edgeRow up ∧ m.edgeRow up ≤ m.yend := by
    unfold Mesh.edgeRow
    split <;> omega
  rw [globalY_eq words given within.1 within.2]
  cases up <;> simp only [Mesh.edgeRow, edge, top, start, height, bottom, Bool.false_eq_true, ↓reduceIte] <;> omega

/-- Where the cells of a guard row are sent from. -/
theorem rows_origin (words : l.InWords) (given : l.Assigns i m) {up inner : Bool} {steps : Nat} (first : 1 ≤ steps)
    (last : steps ≤ l.shape.myg) (across : m.neighbour? (.vertical up inner) = some (j : Int)) :
    let y' := m.guardRow up steps + (l.offset i j (.vertical up inner)).2
    l.column j = l.column i ∧ (l.offset i j (.vertical up inner)).1 = 0 ∧
      (l.shape.myg ≤ y' ∧ y' < l.shape.myg + l.height j) ∧
      l.shape.topology.walk up inner steps (m.globalY (m.edgeRow up)) = some (y' - l.shape.myg + l.bottom j) ∧
      (l.shape.topology.step up (m.globalY (m.edgeRow up)) inner).twist = ((m.link up).side inner).2 := by
  rw [Mesh.neighbour?_vertical] at across
  have found : (m.link up).side inner = (some (j : Int), ((m.link up).side inner).2) := Prod.ext across rfl
  obtain ⟨-, within, columns, beside⟩ := (assigned_side given up inner _).mp found
  have guards := l.guards
  have here := bottom_range given.1
  have there := bottom_range within
  have rows : l.rows.bound (l.row j + 1) = l.bottom j + l.height j := by simp only [height, bottom]; omega
  have enters := beside.2.2
  rw [globalY_edge words given, enters]
  have row : m.guardRow up steps = if up then l.shape.myg + l.height i - 1 + steps else l.shape.myg - steps := by
    rw [Mesh.guardRow, yend_eq words given, (start_eq given).2]
  obtain ⟨n, rfl⟩ : ∃ n, steps = n + 1 := ⟨steps - 1, by omega⟩
  have uncut : l.shape.topology.Uncut (l.bottom j) (l.bottom j + l.height j) := by
    rw [← rows]
    exact l.block_uncut _
  rw [row]
  cases up with
  | true =>
    have shift : l.offset i j (.vertical true inner) = (0, -l.height i) := by cases inner <;> rfl
    simp only [shift, ↓reduceIte]
    refine ⟨columns, trivial, by omega, ?_, trivial⟩
    have entered : (l.shape.topology.up (l.edge true (l.row i)) inner).row = some (l.bottom j) := congrArg RowStep.row enters
    have climbed := Topology.climb_run l.proper uncut there.1 there.2.2 entered n (by omega)
    simp only [Topology.walk, ↓reduceIte]
    rw [climbed, Option.some.injEq]
    omega
  | false =>
    have shift : l.offset i j (.vertical false inner) = (0, l.height j) := by cases inner <;> rfl
    simp only [shift, Bool.false_eq_true, ↓reduceIte]
    refine ⟨columns, trivial, by omega, ?_, trivial⟩
    have entered : (l.shape.topology.down (l.edge false (l.row i)) inner).row = some (l.bottom j + l.height j - 1) := by
      rw [← rows]
      exact congrArg RowStep.row enters
    have descended := Topology.descend_run l.proper uncut there.1 there.2.2 entered n (by omega)
    simp only [Topology.walk, Bool.false_eq_true, ↓reduceIte]
    rw [descended, Option.some.injEq]
    omega

theorem split_separatrix (words : l.InWords) (given : l.Assigns i m) (up : Bool) (low : 0 ≤ x) (high : x < m.localNx)
    (word : Index.wrap (l.shape.topology.separatrix - l.left i) = l.shape.topology.separatrix - l.left i) :
    x < (m.link up).split ↔ m.globalX x < l.shape.topology.separatrix := by
  have size : Index.wrap (l.breadth i + 2 * l.shape.mxg) = m.localNx := by
    obtain ⟨-, _, _, _, _, _, -, -, rfl⟩ := given
    rfl
  rw [split_eq given, globalX_eq words given low high, split, word, size]
  omega

theorem mem_sides (inside : (l.targetBlock i side).Contains x y) :
    if side = .xIn ∨ side = .xOut then side ∈ l.shape.xSides else side ∈ l.shape.ySides := by
  have some_ : if side = .xIn ∨ side = .xOut then l.shape.mxg ≠ 0 else l.shape.myg ≠ 0 := by
    cases side <;> simp only [targetBlock, Block.Contains] at inside <;> simp <;> omega
  cases side <;> simp_all [GridShape.xSides, GridShape.ySides]

end Layout

variable [Scalar α]

/-- What one phase makes of one field of each rank. -/
structure Passed (l : Layout α) (meshes : Nat → Mesh α) (sides : List Side) (before after : Nat → Field α) : Prop where
  alike : ∀ i < l.count, Field.Alike (before i) (after i)
  kept : ∀ i < l.count, ∀ x y, (before i).HasColumn x y → (∀ side ∈ sides, ∀ d, (meshes i).neighbour? side = some d →
    ¬ (l.targetBlock i side).Contains x y) → (after i).line x y = (before i).line x y
  filled : ∀ i < l.count, ∀ side ∈ sides, ∀ j : Nat, (meshes i).neighbour? side = some (j : Int) →
    ∀ x y, (l.targetBlock i side).Contains x y → (after i).line x y = (meshes i).received ((meshes i).turnOn side) x
      ((before j).line (x + (l.offset i j side).1) (y + (l.offset i j side).2))

/-- The phase of the guard rows leaves the interior rows alone. -/
theorem Passed.keeps_rows {l : Layout α} {meshes : Nat → Mesh α} {before after : Nat → Field α}
    (passed : Passed l meshes l.shape.ySides before after) {i : Nat} (inside : i < l.count) {x y : Int}
    (present : (before i).HasColumn x y) (low : l.shape.myg ≤ y) (high : y < l.shape.myg + l.height i) :
    (after i).line x y = (before i).line x y := by
  apply passed.kept i inside x y present
  intro side member d _ contained
  have phase := GridShape.tagPhase_ySides member
  cases side with
  | xIn | xOut => cases phase
  | yOutInner | yOutOuter | yInInner | yInOuter =>
    simp only [Layout.targetBlock, Block.Contains] at contained
    omega

namespace Staged
open Mesh

variable {l : Layout α} {meshes : Nat → Mesh α} {size k : Nat} {staged : Nat → List (Field α)}
  {before after : Nat → Field α}

theorem passed (ready : Staged l meshes size staged) (sides : List Side)
    (held : ∀ i < l.count, (staged i)[k]? = some (before i))
    (left : ∀ i < l.count, ((meshes i).afterPhase (staged i) (heard meshes staged sides i))[k]? = some (after i)) :
    Passed l meshes sides before after := by
  have one (i : Nat) (inside : i < l.count) := (ready.phase_lines inside sides).2 k (before i) (held i inside)
  refine ⟨fun i inside => ?_, fun i inside => ?_, fun i inside => ?_⟩ <;>
    obtain ⟨g, found, alike, kept, filled⟩ := one i inside <;>
    obtain rfl : after i = g := Option.some.inj ((left i inside).symm.trans found)
  · exact alike
  · exact kept
  · intro side member j across x y contained
    obtain ⟨f, source, values⟩ := filled side member j across x y contained
    obtain ⟨other, within, same⟩ := Layout.neighbour_lt (ready.given i inside) across
    obtain rfl : j = other := by omega
    obtain rfl : before j = f := Option.some.inj ((held j within).symm.trans source)
    exact values

end Staged

section Filling

variable {l : Layout α} {meshes : Nat → Mesh α} {before middle after : Nat → Field α} (words : l.InWords)
  (given : ∀ i < l.count, l.Assigns i (meshes i))
  (columns : ∀ i < l.count, ∀ x y, (before i).HasColumn x y ↔
    (0 ≤ x ∧ x < l.breadth i + 2 * l.shape.mxg) ∧ 0 ≤ y ∧ y < l.height i + 2 * l.shape.myg)
  (first : Passed l meshes l.shape.xSides before middle) (second : Passed l meshes l.shape.ySides middle after)
  {i : Nat} (inside : i < l.count) {x y : Int}

include words columns inside in
omit [Scalar α] in
private theorem target_has {side : Side} (contained : (l.targetBlock i side).Contains x y) : (before i).HasColumn x y := by
  rw [columns i inside]
  have range := l.left_range i
  have tall := Layout.bottom_range inside
  have guards := l.guards
  have splits := Layout.split_range words i
  cases side <;> simp only [Layout.targetBlock, Block.Contains] at contained <;> omega

include words given columns first second inside

private theorem columns_filled (seam : (meshes i).Seam x y) (low : (meshes i).ystart ≤ y) (high : y ≤ (meshes i).yend) :
    ∃ j < l.count, ∃ x' y', (meshes j).isInterior x' y' = true ∧ (meshes j).globalY y' = (meshes i).globalY y ∧
      (meshes j).globalX x' = l.shape.mxg + ((meshes i).globalX x - l.shape.mxg) % l.shape.mx ∧
      (l.shape.periodicX = false → (meshes j).globalX x' = (meshes i).globalX x) ∧
      (after i).line x y = (before j).line x' y' := by
  have here := given i inside
  obtain ⟨side, d, along, across, contained⟩ := Layout.seam_columns words here seam low high
  obtain ⟨j, within, rfl⟩ := Layout.neighbour_lt here across
  have there := given j within
  obtain ⟨rows, straight, interior, global, whole⟩ := Layout.columns_origin here along across contained
  have present := target_has words columns inside contained
  obtain ⟨⟨left, right⟩, -⟩ := (columns i inside x y).mp present
  have height := Layout.height_congr rows
  have bottom : l.bottom j = l.bottom i := by simp only [Layout.bottom, rows]
  have top : y < l.shape.myg + l.height i := by
    rw [Layout.yend_eq words here] at high
    omega
  have bounds : l.shape.myg ≤ y := (Layout.start_eq here).2 ▸ low
  have guards := l.guards
  have globalX : (meshes i).globalX x = x + l.left i :=
    Layout.globalX_eq words here left (by rw [Layout.localNx_eq words here]; exact right)
  have globalX' : (meshes j).globalX (x + (l.offset i j side).1) = x + (l.offset i j side).1 + l.left j :=
    Layout.globalX_eq words there (by omega) (by rw [Layout.localNx_eq words there]; omega)
  refine ⟨j, within, x + (l.offset i j side).1, y, ?_, ?_, ?_, ?_, ?_⟩
  · rw [Layout.isInterior_iff words there]
    exact ⟨interior, by omega⟩
  · rw [Layout.globalY_eq words here low high, Layout.globalY_eq words there, bottom]
    · exact (Layout.start_eq there).2 ▸ bounds
    · rw [Layout.yend_eq words there]
      omega
  · rw [globalX, globalX', global]
  · intro plain
    rw [globalX, globalX', whole plain]
  · have member : side ∈ l.shape.xSides := by simpa [along] using Layout.mem_sides contained
    have unturned : (meshes i).turnOn side = 0 := by rcases along with rfl | rfl <;> rfl
    rw [second.keeps_rows inside ((first.alike i inside).hasColumn.mpr present) bounds top,
      first.filled i inside side member j across x y contained, unturned, straight, Int.add_zero]
    rfl

private theorem rows_filled (up : Bool) {steps : Nat} (low : 1 ≤ steps) (high : steps ≤ l.shape.myg)
    (seam : (meshes i).Seam x ((meshes i).guardRow up steps)) :
    let inner := decide (x < ((meshes i).link up).split)
    ∃ row, l.shape.topology.walk up inner steps ((meshes i).globalY ((meshes i).edgeRow up)) = some row ∧
      ∃ j < l.count, ∃ y, (meshes j).pex = (meshes i).pex ∧ (meshes j).ystart ≤ y ∧ y ≤ (meshes j).yend ∧
        (meshes j).globalY y = row ∧
        (after i).line x ((meshes i).guardRow up steps) = (meshes i).crossed up inner x ((after j).line x y) := by
  have here := given i inside
  obtain ⟨d, across, contained⟩ := Layout.seam_rows words here low seam
  obtain ⟨j, within, rfl⟩ := Layout.neighbour_lt here across
  have there := given j within
  obtain ⟨same, straight, interior, walked, twist⟩ := Layout.rows_origin words here low high across
  generalize decide (x < ((meshes i).link up).split) = inner at *
  have start := (Layout.start_eq there).2
  have stop := Layout.yend_eq words there
  have breadth := Layout.breadth_congr same
  obtain ⟨⟨left, right⟩, -⟩ := (columns i inside x _).mp (target_has words columns inside contained)
  have guards := l.guards
  have tall := Layout.bottom_range within
  have present : (before j).HasColumn x ((meshes i).guardRow up steps + (l.offset i j (.vertical up inner)).2) := by
    rw [columns j within, breadth]
    exact ⟨⟨left, right⟩, by omega⟩
  have member : Side.vertical up inner ∈ l.shape.ySides := by
    have known := Layout.mem_sides contained
    rwa [if_neg (by cases up <;> cases inner <;> decide)] at known
  refine ⟨_, walked, j, within, _, by rw [Layout.pex_eq there, Layout.pex_eq here, same], by omega, by omega,
    Layout.globalY_eq words there (by omega) (by omega), ?_⟩
  rw [second.keeps_rows within ((first.alike j within).hasColumn.mpr present) interior.1 interior.2,
    second.filled i inside _ member j across x _ contained, straight, Int.add_zero, Mesh.received, Mesh.crossed,
    Mesh.turnOn_vertical, Layout.shape_eq here, twist]
  split
  next turned => cases up <;> simp
  next => rfl

omit inside in
/-- Both phases together fill all guard cells across which there is a rank. -/
theorem filled_of_phases : Filled l.count meshes before after where
  alike i inside := (first.alike i inside).trans (second.alike i inside)
  kept i inside x y present unseamed := by
    have outside (side : Side) (d : Int) (across : (meshes i).neighbour? side = some d) :
        ¬ (l.targetBlock i side).Contains x y := fun contained =>
      unseamed ((Layout.seam_iff words (given i inside)).mpr ⟨side, d, across, contained⟩)
    rw [second.kept i inside x y ((first.alike i inside).hasColumn.mpr present) fun side _ d => outside side d,
      first.kept i inside x y present fun side _ d => outside side d]
  columns i inside x y seam low high := by
    rw [Layout.shape_eq (given i inside)]
    exact columns_filled words given columns first second inside seam low high
  rows i inside up x steps low high seam := by
    rw [Layout.shape_eq (given i inside)] at high ⊢
    exact rows_filled words given columns first second inside up low high seam
  separatrix i inside up x low high word := by
    have shape := Layout.shape_eq (given i inside)
    rw [shape, (Layout.offset_eq (given i inside)).1] at word
    rw [shape]
    exact Layout.split_separatrix words (given i inside) up low high word

end Filling

/-- What the two phases of an exchange of all ranks make of one field of each rank. -/
def Exchanged (l : Layout α) (meshes : Nat → Mesh α) (before after : Nat → Field α) : Prop :=
  ∃ middle, Passed l meshes l.shape.xSides before middle ∧ Passed l meshes l.shape.ySides middle after

theorem Exchanged.filled {l : Layout α} {meshes : Nat → Mesh α} {before after : Nat → Field α}
    (exchanged : Exchanged l meshes before after) (given : ∀ i < l.count, l.Assigns i (meshes i))
    (room : ∀ i < l.count, (meshes i).HasRoom) (shaped : ∀ i < l.count, (before i).extents = (meshes i).extents) :
    Filled l.count meshes before after := by
  have some_ : 0 < l.count := Nat.mul_pos l.columns.positive l.rows.positive
  obtain ⟨middle, first, second⟩ := exchanged
  exact filled_of_phases (Layout.inWords_of_room (given 0 some_) (room 0 some_)) given
    (fun i inside x y => Layout.hasColumn_iff (given i inside) (room i inside) (shaped i inside)) first second

theorem Staged.exchanged {l : Layout α} {meshes : Nat → Mesh α} {size k : Nat} {fields : Nat → List (Field α)}
    {before after : Nat → Field α} (ready : Staged l meshes size fields)
    (held : ∀ i < l.count, (fields i)[k]? = some (before i))
    (left : ∀ i < l.count, (Mesh.afterY meshes (Mesh.afterX meshes fields) i)[k]? = some (after i)) :
    Exchanged l meshes before after := by
  have shape (i : Nat) (inside : i < l.count) := Layout.shape_eq (ready.given i inside)
  have halfway (i : Nat) : ∃ f, i < l.count → (Mesh.afterX meshes fields i)[k]? = some f := by
    by_cases inside : i < l.count
    · obtain ⟨g, found, -⟩ := (ready.phase_lines inside (meshes i).shape.xSides).2 k (before i) (held i inside)
      exact ⟨g, fun _ => found⟩
    · exact ⟨before i, fun within => absurd within inside⟩
  choose middle found using halfway
  refine ⟨middle, ready.passed l.shape.xSides held fun i inside => ?_,
    ready.afterX.passed l.shape.ySides found fun i inside => ?_⟩
  · rw [← shape i inside]
    exact found i inside
  · rw [← shape i inside]
    exact left i inside

/-- An exchange of all ranks fills the guard cells of every field of their groups. -/
theorem Staged.filled {l : Layout α} {meshes : Nat → Mesh α} {size k : Nat} {fields : Nat → List (Field α)}
    {before after : Nat → Field α} (ready : Staged l meshes size fields)
    (held : ∀ i < l.count, (fields i)[k]? = some (before i))
    (left : ∀ i < l.count, (Mesh.afterY meshes (Mesh.afterX meshes fields) i)[k]? = some (after i)) :
    Filled l.count meshes before after :=
  (ready.exchanged held left).filled ready.given ready.room fun i inside =>
    ready.shaped i inside _ (List.mem_of_getElem? (held i inside))

end HaloMesh
