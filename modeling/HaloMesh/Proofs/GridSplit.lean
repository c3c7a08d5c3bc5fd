import HaloMesh.Proofs.BlockLinks
import Mathlib.Data.Set.Function

/-! All ranks split a grid the same way. Each of them reads the grid and works out its block and its links
alone; the blocks still divide the grid without gaps, and the links of any two ranks agree. -/

namespace HaloMesh
open Index (Partition)

variable {α : Type}

namespace Layout

/-- The block of one rank, with links that it has worked out. -/
def Assigns (l : Layout α) (i : Nat) (m : Mesh α) : Prop :=
  i < l.count ∧ ∃ source options up down defaults, l.link i true = .ok up ∧ l.link i false = .ok down ∧
    m = l.block source options i up down defaults

/-- Whether words can count the cells of every block with its guards. -/
structure InWords (l : Layout α) : Prop where
  columns : l.shape.mx + 2 * l.shape.mxg < Text.wordEnd
  rows : ∀ k < l.rows.parts, l.rows.bound (k + 1) - l.rows.bound k + 2 * l.shape.myg < Text.wordEnd

variable {l : Layout α} {i j : Nat} {m n : Mesh α}

theorem eq_of_place (columns : l.column i = l.column j) (rows : l.row i = l.row j) : i = j := by
  rw [← Nat.mod_add_div' i l.columns.parts, ← Nat.mod_add_div' j l.columns.parts]
  simp only [column, row] at columns rows
  rw [columns, rows]

theorem left_range (l : Layout α) (i : Nat) :
    0 ≤ l.left i ∧ max 1 l.shape.mxg ≤ l.breadth i ∧ l.left i + l.breadth i ≤ l.shape.mx := by
  have low := Partition.bound_mono l.columns_nonneg (Nat.zero_le (l.column i))
  have high := Partition.bound_mono l.columns_nonneg (show l.column i + 1 ≤ l.columns.parts from l.column_lt i)
  have size := l.column_sizes (l.column i)
  rw [Partition.bound_zero l.columns_nonneg] at low
  rw [Partition.bound_parts, l.allColumns] at high
  simp only [breadth, left]
  omega

theorem bottom_range (inside : i < l.count) :
    0 ≤ l.bottom i ∧ max 1 l.shape.myg ≤ l.height i ∧ l.bottom i + l.height i ≤ l.shape.ny := by
  have low := l.bound_range (Nat.le_of_lt (row_lt inside))
  have high := l.bound_range (show l.row i + 1 ≤ l.rows.parts from row_lt inside)
  have size := l.row_sizes (l.row i)
  simp only [height, bottom]
  omega

/-! The numbers of a block are exact where words can count its cells. -/

section Exact

variable (words : l.InWords) (given : l.Assigns i m)
include words given

theorem localNx_eq : m.localNx = l.breadth i + 2 * l.shape.mxg := by
  obtain ⟨inside, _, _, _, _, _, -, -, rfl⟩ := given
  have range := l.left_range i
  have guards := l.guards
  have limit := words.columns
  exact Index.wrap_of_fits (by rw [Index.wordEnd_eq]; omega) (by omega)

theorem localNy_eq : m.localNy = l.height i + 2 * l.shape.myg := by
  obtain ⟨inside, _, _, _, _, _, -, -, rfl⟩ := given
  have range := bottom_range inside
  have guards := l.guards
  have limit := words.rows _ (row_lt inside)
  exact Index.wrap_of_fits (by rw [Index.wordEnd_eq]; omega) limit

theorem xend_eq : m.xend = l.shape.mxg + l.breadth i - 1 := by
  obtain ⟨inside, _, _, _, _, _, -, -, rfl⟩ := given
  have range := l.left_range i
  have guards := l.guards
  have limit := words.columns
  exact Index.wrap_of_fits (by rw [Index.wordEnd_eq]; omega) (by omega)

theorem yend_eq : m.yend = l.shape.myg + l.height i - 1 := by
  obtain ⟨inside, _, _, _, _, _, -, -, rfl⟩ := given
  have range := bottom_range inside
  have guards := l.guards
  have limit : l.height i + 2 * l.shape.myg < Text.wordEnd := words.rows _ (row_lt inside)
  exact Index.wrap_of_fits (by rw [Index.wordEnd_eq]; omega) (by omega)

theorem globalX_eq {x : Int} (low : 0 ≤ x) (high : x < m.localNx) : m.globalX x = x + l.left i := by
  rw [localNx_eq words given] at high
  obtain ⟨inside, _, _, _, _, _, -, -, rfl⟩ := given
  have range := l.left_range i
  have limit := words.columns
  exact Index.wrap_of_fits (by rw [Index.wordEnd_eq]; simp only [block]; omega) (by simp only [block]; omega)

theorem globalY_eq {y : Int} (low : m.ystart ≤ y) (high : y ≤ m.yend) :
    m.globalY y = y - l.shape.myg + l.bottom i := by
  rw [yend_eq words given] at high
  obtain ⟨inside, _, _, _, _, _, -, -, rfl⟩ := given
  have range := bottom_range inside
  have guards := l.guards
  have top := l.proper.1
  simp only [Index.greatest] at top
  simp only [block] at low
  have exact : y + (l.bottom i - l.shape.myg) = y - l.shape.myg + l.bottom i := by omega
  simp only [Mesh.globalY, block, exact]
  exact Index.wrap_of_fits (by rw [Index.wordEnd_eq]; omega) (by omega)

theorem isInterior_iff {x y : Int} : m.isInterior x y = true ↔
    (l.shape.mxg ≤ x ∧ x < l.shape.mxg + l.breadth i) ∧ (l.shape.myg ≤ y ∧ y < l.shape.myg + l.height i) := by
  have right := xend_eq words given
  have top := yend_eq words given
  obtain ⟨inside, _, _, _, _, _, -, -, rfl⟩ := given
  simp only [Mesh.isInterior, Bool.and_eq_true, decide_eq_true_eq, right, top]
  simp only [block]
  omega

end Exact

/-! The links of two blocks. -/

theorem assigned_xout (given : l.Assigns i m) : m.xout = some (j : Int) ↔ j < l.count ∧ l.Beyond i j := by
  obtain ⟨inside, _, _, _, _, _, -, -, rfl⟩ := given
  exact xout_iff inside

theorem assigned_xin (given : l.Assigns j m) : m.xin = some (i : Int) ↔ i < l.count ∧ l.Beyond i j := by
  obtain ⟨inside, _, _, _, _, _, -, -, rfl⟩ := given
  exact xin_iff inside

theorem assigned_side (given : l.Assigns i m) (up inner twist : Bool) :
    (m.link up).side inner = (some (j : Int), twist) ↔ l.HasSide i inner ∧
      j < l.count ∧ l.column j = l.column i ∧ l.Beside up inner (l.row i) (l.row j) twist := by
  obtain ⟨inside, _, _, above, below, _, madeUp, madeDown, rfl⟩ := given
  have made : l.link i up = .ok (if up then above else below) := by cases up <;> assumption
  change (if up then above else below).side inner = _ ↔ _
  rw [(link_side inside made).2 inner j twist]
  apply and_congr_right
  intro _
  constructor
  · intro holds
    obtain ⟨other, beside, place⟩ := holds
    obtain ⟨within, columns, rfl⟩ := (l.rankAt_eq_iff (l.column_lt i) beside.2.1).mp place
    exact ⟨within, columns, beside⟩
  · intro holds
    obtain ⟨within, columns, beside⟩ := holds
    exact ⟨l.row j, beside, (l.rankAt_eq_iff (l.column_lt i) beside.2.1).mpr ⟨within, columns, rfl⟩⟩

theorem split_eq (given : l.Assigns i m) (up : Bool) : (m.link up).split = l.split i := by
  obtain ⟨inside, _, _, above, below, _, madeUp, madeDown, rfl⟩ := given
  cases up with
  | true => exact (link_side inside madeUp).1
  | false => exact (link_side inside madeDown).1

theorem split_congr (same : l.column i = l.column j) : l.split i = l.split j := by
  simp only [split, left, breadth, same]

theorem hasSide_congr (same : l.column i = l.column j) (inner : Bool) : l.HasSide i inner ↔ l.HasSide j inner := by
  simp only [HasSide, split, left, breadth, same]

/-- A link up and the link back down are worked out by different ranks and agree. -/
theorem side_mutual (first : l.Assigns i m) (second : l.Assigns j n) (inner twist : Bool) :
    m.up.side inner = (some (j : Int), twist) ↔ n.down.side inner = (some (i : Int), twist) := by
  have there := assigned_side (j := j) first true inner twist
  have back := assigned_side (j := i) second false inner twist
  simp only [Mesh.link, ↓reduceIte, Bool.false_eq_true] at there back
  rw [there, back, beside_comm, Bool.not_true]
  constructor
  · intro holds
    obtain ⟨has, -, columns, beside⟩ := holds
    exact ⟨(hasSide_congr columns inner).mpr has, first.1, columns.symm, beside⟩
  · intro holds
    obtain ⟨has, -, columns, beside⟩ := holds
    exact ⟨(hasSide_congr columns inner).mpr has, second.1, columns.symm, beside⟩

private theorem rankAt_nonneg {nxpe px py : Int} (columns : 0 ≤ nxpe) (low : 0 ≤ px) (low' : 0 ≤ py) :
    0 ≤ Mesh.rankAt nxpe px py := by
  unfold Mesh.rankAt
  positivity

theorem neighbour_lt (given : l.Assigns i m) {side : Side} {j : Int} (across : m.neighbour? side = some j) :
    ∃ k < l.count, j = (k : Nat) := by
  have beside (up inner : Bool) (found : ((m.link up).side inner).1 = some j) : ∃ k < l.count, j = (k : Nat) := by
    have whole : (m.link up).side inner = (some j, ((m.link up).side inner).2) := Prod.ext found rfl
    obtain ⟨inside, _, _, above, below, _, madeUp, madeDown, rfl⟩ := given
    have made : l.link i up = .ok (if up then above else below) := by cases up <;> assumption
    obtain ⟨-, other, within, place⟩ := ((link_side inside made).2 inner j _).mp whole
    obtain ⟨k, same⟩ := Int.eq_ofNat_of_zero_le (rankAt_nonneg (Int.natCast_nonneg l.columns.parts)
      (Int.natCast_nonneg (l.column i)) (Int.natCast_nonneg other))
    exact ⟨k, ((l.rankAt_eq_iff (l.column_lt i) within.2.1).mp same).1, place.symm.trans same⟩
  have along (px : Int) (low : 0 ≤ px) (place : Mesh.rankAt l.columns.parts px (l.row i) = j) : ∃ k : Nat, j = k := by
    rw [← place]
    exact Int.eq_ofNat_of_zero_le (rankAt_nonneg (Int.natCast_nonneg _) low (Int.natCast_nonneg _))
  cases side with
  | xOut =>
    have positive := l.column_lt i
    obtain ⟨k, rfl⟩ : ∃ k : Nat, j = k := by
      obtain ⟨inside, _, _, _, _, _, -, -, rfl⟩ := given
      simp only [Mesh.neighbour?, block, Option.ite_none_right_eq_some, Option.some.injEq] at across
      exact along _ (Int.tmod_nonneg _ (by omega)) across.2
    exact ⟨k, ((assigned_xout given).mp across).1, rfl⟩
  | xIn =>
    have positive := l.column_lt i
    obtain ⟨k, rfl⟩ : ∃ k : Nat, j = k := by
      obtain ⟨inside, _, _, _, _, _, -, -, rfl⟩ := given
      simp only [Mesh.neighbour?, block, Option.ite_none_right_eq_some, Option.some.injEq] at across
      exact along _ (Int.tmod_nonneg _ (by omega)) across.2
    exact ⟨k, ((assigned_xin given).mp across).1, rfl⟩
  | yOutInner => exact beside true true across
  | yOutOuter => exact beside true false across
  | yInInner => exact beside false true across
  | yInOuter => exact beside false false across

end Layout

/-- Meshes of the ranks of a world that divide one grid among them. -/
structure DivideGrid (shape : GridShape α) (nxpe nype : Int) (count : Nat) (meshes : Nat → Mesh α) : Prop where
  /-- There is one rank at every place of the processor grid. -/
  places : Set.BijOn (fun i => ((meshes i).pex, (meshes i).pey)) {i | i < count}
    {place | (0 ≤ place.1 ∧ place.1 < nxpe) ∧ 0 ≤ place.2 ∧ place.2 < nype}
  /-- Every interior cell of the grid is an interior cell of one rank. -/
  cells : Set.BijOn (fun cell : Nat × Int × Int =>
      ((meshes cell.1).globalX cell.2.1, (meshes cell.1).globalY cell.2.2))
    {cell | cell.1 < count ∧ (meshes cell.1).isInterior cell.2.1 cell.2.2 = true}
    {cell | (shape.mxg ≤ cell.1 ∧ cell.1 < shape.mxg + shape.mx) ∧ 0 ≤ cell.2 ∧ cell.2 < shape.ny}
  sizes : ∀ i < count, max 1 shape.mxg ≤ (meshes i).xend + 1 - (meshes i).xstart ∧
    max 1 shape.myg ≤ (meshes i).yend + 1 - (meshes i).ystart
  world : ∀ i < count, ∀ side j, (meshes i).neighbour? side = some j → 0 ≤ j ∧ j < count
  xLinks : ∀ i < count, ∀ j < count, (meshes i).xout = some (j : Int) ↔ (meshes j).xin = some (i : Int)
  /-- A link up is answered by a link down with the same twist, on both sides of the split. -/
  yLinks : ∀ i < count, ∀ j < count, ∀ inner twist, (meshes i).up.side inner = (some (j : Int), twist) ↔
    (meshes j).down.side inner = (some (i : Int), twist)
  splits : ∀ i < count, ∀ j < count, ∀ inner, ((meshes i).up.side inner).1 = some (j : Int) →
    (meshes i).up.split = (meshes j).down.split

namespace Layout

variable {l : Layout α} {meshes : Nat → Mesh α}

theorem places_bijOn (given : ∀ i < l.count, l.Assigns i (meshes i)) :
    Set.BijOn (fun i => ((meshes i).pex, (meshes i).pey)) {i | i < l.count}
      {place | (0 ≤ place.1 ∧ place.1 < l.columns.parts) ∧ 0 ≤ place.2 ∧ place.2 < l.rows.parts} := by
  have place (i : Nat) (inside : i < l.count) :
      ((meshes i).pex, (meshes i).pey) = ((l.column i : Int), (l.row i : Int)) := by
    obtain ⟨-, _, _, _, _, _, -, -, same⟩ := given i inside
    rw [same]
    rfl
  refine ⟨?_, ?_, ?_⟩
  · intro i inside
    simp only [Set.mem_ofPred_eq, place i inside]
    have := l.column_lt i
    have := row_lt inside
    omega
  · intro i inside j within same
    simp only [place i inside, place j within, Prod.mk.injEq, Int.natCast_inj] at same
    exact eq_of_place same.1 same.2
  · rintro ⟨px, py⟩ ⟨⟨lowX, highX⟩, lowY, highY⟩
    obtain ⟨c, rfl⟩ := Int.eq_ofNat_of_zero_le lowX
    obtain ⟨k, rfl⟩ := Int.eq_ofNat_of_zero_le lowY
    obtain ⟨j, inside, rfl, rfl⟩ := l.exists_rank (show c < l.columns.parts by simpa using highX)
      (show k < l.rows.parts by simpa using highY)
    exact ⟨j, inside, place j inside⟩

theorem cells_bijOn (words : l.InWords) (given : ∀ i < l.count, l.Assigns i (meshes i)) :
    Set.BijOn (fun cell : Nat × Int × Int => ((meshes cell.1).globalX cell.2.1, (meshes cell.1).globalY cell.2.2))
      {cell | cell.1 < l.count ∧ (meshes cell.1).isInterior cell.2.1 cell.2.2 = true}
      {cell | (l.shape.mxg ≤ cell.1 ∧ cell.1 < l.shape.mxg + l.shape.mx) ∧ 0 ≤ cell.2 ∧ cell.2 < l.shape.ny} := by
  have guards := l.guards
  have interior (i : Nat) (inside : i < l.count) (x y : Int) :=
    isInterior_iff words (given i inside) (x := x) (y := y)
  have global (i : Nat) (inside : i < l.count) (x y : Int) (within : (meshes i).isInterior x y = true) :
      (meshes i).globalX x = x + l.left i ∧ (meshes i).globalY y = y - l.shape.myg + l.bottom i := by
    have ranges := (interior i inside x y).mp within
    have size := localNx_eq words (given i inside)
    have top := yend_eq words (given i inside)
    have start : (meshes i).ystart = l.shape.myg := by
      obtain ⟨-, _, _, _, _, _, -, -, same⟩ := given i inside
      rw [same]
      rfl
    exact ⟨globalX_eq words (given i inside) (by omega) (by omega),
      globalY_eq words (given i inside) (by omega) (by omega)⟩
  refine ⟨?_, ?_, ?_⟩
  · rintro ⟨i, x, y⟩ ⟨inside, within⟩
    change i < l.count at inside
    simp only [Set.mem_ofPred_eq, global i inside x y within]
    have ranges := (interior i inside x y).mp within
    have := l.left_range i
    have := bottom_range inside
    omega
  · rintro ⟨i, x, y⟩ ⟨inside, within⟩ ⟨j, x', y'⟩ ⟨inside', within'⟩ same
    simp only [global i inside x y within, global j inside' x' y' within', Prod.mk.injEq] at same
    have ranges := (interior i inside x y).mp within
    have ranges' := (interior j inside' x' y').mp within'
    simp only [breadth, height, left, bottom] at same ranges ranges'
    have columns : l.column i = l.column j := by
      apply Partition.piece_unique l.columns_nonneg (i := x + l.left i - l.shape.mxg) <;> simp only [left] <;> omega
    have rows : l.row i = l.row j := by
      apply Partition.piece_unique l.rows_nonneg (i := y - l.shape.myg + l.bottom i) <;> simp only [bottom] <;> omega
    obtain rfl := eq_of_place columns rows
    simp only [Prod.mk.injEq, true_and]
    omega
  · rintro ⟨xg, yg⟩ ⟨⟨lowX, highX⟩, lowY, highY⟩
    obtain ⟨c, inColumns, left, right⟩ := Partition.exists_piece l.columns_nonneg (i := xg - l.shape.mxg)
      (by omega) (by rw [l.allColumns]; omega)
    obtain ⟨k, inRows, bottom, top⟩ := Partition.exists_piece l.rows_nonneg lowY (by rw [l.allRows]; omega)
    obtain ⟨i, inside, rfl, rfl⟩ := l.exists_rank inColumns inRows
    have within : (meshes i).isInterior (xg - l.left i) (yg - l.bottom i + l.shape.myg) = true := by
      rw [interior i inside]
      simp only [Layout.left, Layout.bottom, breadth, height]
      omega
    refine ⟨(i, xg - l.left i, yg - l.bottom i + l.shape.myg), ⟨inside, within⟩, ?_⟩
    simp only [global i inside _ _ within, Prod.mk.injEq]
    omega

theorem divideGrid (words : l.InWords) (given : ∀ i < l.count, l.Assigns i (meshes i)) :
    DivideGrid l.shape l.columns.parts l.rows.parts l.count meshes where
  places := places_bijOn given
  cells := cells_bijOn words given
  sizes i inside := by
    have right := xend_eq words (given i inside)
    have top := yend_eq words (given i inside)
    have wide := l.left_range i
    have tall := bottom_range inside
    obtain ⟨-, _, _, _, _, _, -, -, same⟩ := given i inside
    have start : (meshes i).xstart = l.shape.mxg ∧ (meshes i).ystart = l.shape.myg := by
      rw [same]
      exact ⟨rfl, rfl⟩
    omega
  world i inside side j across := by
    obtain ⟨k, within, rfl⟩ := neighbour_lt (given i inside) across
    omega
  xLinks i inside j within := by
    rw [assigned_xout (given i inside), assigned_xin (given j within)]
    simp only [inside, within]
  yLinks i inside j within inner twist := side_mutual (given i inside) (given j within) inner twist
  splits i inside j within inner across := by
    have there : ((meshes i).link true).side inner = (some (j : Int), (((meshes i).up).side inner).2) :=
      Prod.ext across rfl
    obtain ⟨-, -, columns, -⟩ := (assigned_side (given i inside) true inner _).mp there
    rw [show (meshes i).up.split = l.split i from split_eq (given i inside) true,
      show (meshes j).down.split = l.split j from split_eq (given j within) false, split_congr columns]

variable [Scalar α] {source : GridSource α} {options : Options α} {warnings : List String}

theorem assigns_of_load {i : Nat} {m : Mesh α} {messages : List String} (inside : i < l.count)
    (loaded : l.loadBlock source options warnings i = .ok (m, messages)) : l.Assigns i m := by
  simp only [loadBlock, Outcome.bind_eq_ok, Outcome.guard_eq_ok, pure, Except.pure, Except.ok.injEq,
    Prod.mk.injEq] at loaded
  obtain ⟨up, madeUp, down, madeDown, ⟨defaults, more⟩, -, -, -, -, rfl, -⟩ := loaded
  exact ⟨inside, source, options, up, down, defaults, madeUp, madeDown, rfl⟩

/-- All ranks that have loaded a grid have taken their blocks from one layout. -/
theorem of_load {i count : Nat} {m : Mesh α} {messages : List String}
    (loaded : Mesh.load source options ⟨i, count⟩ = .ok (m, messages)) : ∃ l : Layout α, l.count = count ∧
      ∀ j < count, ∀ n notes, Mesh.load source options ⟨j, count⟩ = .ok (n, notes) → l.Assigns j n := by
  cases read : GridShape.read source options with
  | error failure => simp only [Mesh.load, read, bind, Except.bind, reduceCtorEq] at loaded
  | ok found =>
    obtain ⟨g, warnings⟩ := found
    cases settled : g.settleSplit options count with
    | error failure => simp only [Mesh.load, read, settled, bind, Except.bind, reduceCtorEq] at loaded
    | ok nxpe =>
      obtain ⟨l, rfl, rfl, same⟩ := load_eq read settled
      refine ⟨l, rfl, fun j inside n notes loads => ?_⟩
      rw [same j inside] at loads
      exact assigns_of_load inside loads

/-- Once the split is settled, nothing that can still fail depends on the rank. -/
theorem loadBlock_uniform (aimed : l.rows.Aimed) :
    (∃ failure, ∀ i < l.count, l.loadBlock source options warnings i = .error failure) ∨
      ∃ (meshes : Nat → Mesh α) (messages : List String), ∀ i < l.count,
        l.loadBlock source options warnings i = .ok (meshes i, messages) ∧ l.Assigns i (meshes i) := by
  have links (i : Nat) (up : Bool) : ∃ link, i < l.count → l.link i up = .ok link := by
    by_cases inside : i < l.count
    · obtain ⟨link, made⟩ := makeLink_total aimed (row_lt inside) l.columns.parts (l.column i) (l.left i)
        (Index.wrap (l.breadth i + 2 * l.shape.mxg)) up
      exact ⟨link, fun _ => made⟩
    · exact ⟨⟨none, none, false, false, 0⟩, fun within => absurd within inside⟩
  choose link made using links
  cases read : ((Defaults.read options).mapError .inOptions).mapError Failure.returned with
  | error failure =>
    refine .inl ⟨failure, fun i inside => ?_⟩
    simp only [loadBlock, made i _ inside, read, bind, Except.bind]
  | ok found =>
    obtain ⟨defaults, more⟩ := found
    cases widths : (checkDefaultWidths l.shape defaults).mapError Failure.returned with
    | error failure =>
      refine .inl ⟨failure, fun i inside => ?_⟩
      simp only [loadBlock, made i _ inside, read, widths, bind, Except.bind]
    | ok _ =>
      by_cases unknown : transformName options ≠ "identity" ∧ transformName options ≠ "shifted"
      · refine .inl ⟨.returned (.config (.unknownTransform (transformName options))), fun i inside => ?_⟩
        simp only [loadBlock, made i _ inside, read, widths, bind, Except.bind, if_pos unknown]
        rfl
      · refine .inr ⟨fun i => l.block source options i (link i true) (link i false) defaults, warnings ++ more,
          fun i inside => ⟨?_, inside, source, options, _, _, defaults, made i true inside, made i false inside, rfl⟩⟩
        simp only [loadBlock, made i _ inside, read, widths, bind, Except.bind, if_neg unknown]
        rfl

end Layout

/-- Sizes small enough for words to count columns with their guards, and for double precision numbers to
find the owner of a row without rounding. -/
def GridShape.Small (g : GridShape α) (count : Nat) : Prop :=
  2 * g.mxg < Text.wordEnd ∧ count * g.ny ≤ (Nat.pow 2 53 : Nat)

namespace Layout

variable {l : Layout α}

theorem exact_of_small {count : Nat} (small : l.shape.Small count) (enough : l.rows.parts ≤ count) : l.rows.Exact := by
  have rows := l.proper.1
  calc (l.rows.parts : Int) * l.rows.total = l.rows.parts * l.shape.ny := by rw [l.allRows]
    _ ≤ count * l.shape.ny := Int.mul_le_mul_of_nonneg_right (by exact_mod_cast enough) (by omega)
    _ ≤ _ := small.2

theorem columns_fit (l : Layout α) (narrow : 2 * l.shape.mxg < Text.wordEnd) :
    l.shape.mx + 2 * l.shape.mxg < Text.wordEnd := by
  have guards := l.guards
  have limit : Index.storageLimit = 35184372088832 := rfl
  have width := l.width
  have mx : l.shape.mx = l.shape.nx - 2 * l.shape.mxg := by
    rw [Index.wrap_of_fits (by rw [Index.wordEnd_eq]; omega) narrow] at width
    refine Index.wrap_of_fits ?_ ?_ <;> rw [Index.wordEnd_eq] <;> omega
  rw [mx, Index.wordEnd_eq]
  omega

theorem inWords_of_small (small : l.shape.Small l.count) : l.InWords := by
  obtain ⟨narrow, short⟩ := small
  have guards := l.guards
  have power : (Nat.pow 2 53 : Nat) = 9007199254740992 := rfl
  have rows := l.proper.1
  refine ⟨l.columns_fit narrow, fun k inside => ?_⟩
  have count : 1 ≤ l.count := Nat.mul_pos l.columns.positive l.rows.positive
  have once : 1 * l.shape.ny ≤ l.count * l.shape.ny :=
    Int.mul_le_mul_of_nonneg_right (by exact_mod_cast count) (by omega)
  have size := l.row_sizes k
  have low := l.bound_range (Nat.le_of_lt inside)
  have high := l.bound_range (show k + 1 ≤ l.rows.parts from inside)
  rw [power] at short
  rw [Index.wordEnd_eq]
  omega

end Layout

/-- All ranks accept a grid or all of them refuse it, and for the same reason. A split that has passed its
check never leads a link into the interior of a block. If the ranks accept, their meshes divide the grid. -/
theorem load_divides_grid [Scalar α] (source : GridSource α) (options : Options α) (count : Nat)
    (small : ∀ g warnings, GridShape.read source options = .ok (g, warnings) → g.Small count) :
    (∀ g warnings nxpe rows, GridShape.read source options = .ok (g, warnings) →
      g.checkSplit count nxpe = .ok () → Partition.make ((count : Int).tdiv nxpe) g.ny = .ok rows →
      ∀ pey : Int, 0 ≤ pey → pey < rows.parts → ∀ pex offsetX localNx up,
        ∃ link, makeLink g.topology rows nxpe pex pey offsetX localNx up = .ok link) ∧
    ((∃ failure, ∀ i < count, Mesh.load source options ⟨i, count⟩ = .error failure) ∨
      ∃ g warnings nxpe nype meshes, (∀ i < count, Mesh.load source options ⟨i, count⟩ = .ok (meshes i, warnings) ∧
          (meshes i).shape = g ∧ (meshes i).nxpe = nxpe ∧ (meshes i).nype = nype) ∧
        DivideGrid g nxpe nype count meshes) := by
  refine ⟨?_, ?_⟩
  · intro g warnings nxpe rows read passed made pey low high pex offsetX localNx up
    obtain ⟨l, rfl, madeColumns, madeRows⟩ := Layout.of_checkSplit read passed
    obtain rfl : rows = l.rows := by
      rw [made] at madeRows
      exact Except.ok.inj madeRows
    obtain ⟨k, rfl⟩ := Int.eq_ofNat_of_zero_le low
    have fewer : (l.rows.parts : Int) ≤ count := by
      rw [(Partition.make_ok made).1, Int.natCast_tdiv_eq_ediv]
      exact Int.ediv_le_self _ (Int.natCast_nonneg _)
    exact Layout.makeLink_total (Layout.exact_of_small (small _ _ read) (by exact_mod_cast fewer)).aimed
      (by exact_mod_cast high) nxpe pex offsetX localNx up
  · cases read : GridShape.read source options with
    | error failure =>
      refine .inl ⟨failure, fun i _ => ?_⟩
      simp only [Mesh.load, read, bind, Except.bind]
    | ok found =>
      obtain ⟨g, warnings⟩ := found
      cases settled : g.settleSplit options count with
      | error failure =>
        refine .inl ⟨failure, fun i _ => ?_⟩
        simp only [Mesh.load, read, settled, bind, Except.bind]
      | ok nxpe =>
        obtain ⟨l, rfl, rfl, same⟩ := Layout.load_eq read settled
        have tiny := small _ _ read
        have enough : l.rows.parts ≤ l.count := Nat.le_mul_of_pos_left _ l.columns.positive
        rcases Layout.loadBlock_uniform (Layout.exact_of_small tiny enough).aimed with ⟨failure, fails⟩ | ⟨meshes, messages, loads⟩
        · exact .inl ⟨failure, fun i inside => (same i inside).trans (fails i inside)⟩
        · refine .inr ⟨l.shape, messages, l.columns.parts, l.rows.parts, meshes, fun i inside => ?_,
            Layout.divideGrid (Layout.inWords_of_small tiny) fun i inside => (loads i inside).2⟩
          obtain ⟨-, _, _, _, _, _, -, -, block⟩ := (loads i inside).2
          refine ⟨(same i inside).trans (loads i inside).1, ?_⟩
          rw [block]
          exact ⟨rfl, rfl, rfl⟩

/-! A single null on eight ranks. Its values are whole numbers, which can be evaluated. -/

/-- Whole numbers as the values of a grid. Quotients and roots are rounded, and all angles are zero. -/
structure Whole where
  value : Int
deriving DecidableEq, Repr

instance : Scalar Whole where
  add a b := ⟨a.value + b.value⟩
  sub a b := ⟨a.value - b.value⟩
  mul a b := ⟨a.value * b.value⟩
  div a b := ⟨a.value / b.value⟩
  neg a := ⟨-a.value⟩
  ofInt n := ⟨n⟩
  ofScientific m negative e := ⟨if negative then m / 10 ^ e else m * 10 ^ e⟩
  lt a b := decide (a.value < b.value)
  le a b := decide (a.value ≤ b.value)
  same a b := decide (a = b)
  abs a := ⟨a.value.natAbs⟩
  sqrt a := ⟨a.value.toNat.sqrt⟩
  sin _ := ⟨0⟩
  cos _ := ⟨1⟩
  pi := ⟨3⟩
  wholePower a n := ⟨a.value ^ n.toNat⟩
  undefined := ⟨0⟩
  isUndefined _ := false
  isInfinite _ := false
  round a := a.value
  roundEven a := a.value
  truncate a := a.value
  text a := toString a.value
  plainText a := toString a.value
  dataText a := toString a.value
  tableText a := toString a.value

namespace Options

theorem get?_empty (key : String) : (empty : Options α).get? key = none := by
  simp only [get?, empty]
  match path key with
  | [] => rfl
  | [_] => rfl
  | _ :: _ :: _ => rfl

theorem isSet_empty : (empty : Options α).isSet = fun _ => false := by
  funext key
  rw [isSet, get?_empty]
  rfl

variable [Scalar α] (key : String)

theorem whole_empty (dflt : Int) : (empty : Options α).whole key dflt = dflt := by rw [whole, get?_empty]; rfl

omit [Scalar α] in
theorem flag_empty (dflt : Bool) : (empty : Options α).flag key dflt = dflt := by rw [flag, get?_empty]; rfl

theorem real_empty (dflt : α) : (empty : Options α).real key dflt = dflt := by rw [real, get?_empty]; rfl

theorem text_empty (dflt : String) : (empty : Options α).text key dflt = dflt := by rw [text, get?_empty]; rfl

end Options

/-- Eight rows with legs of two rows each, and four interior columns with the separatrix in their middle. -/
def singleNullSource : GridSource Whole :=
  ⟨[("nx", ⟨8⟩), ("ny", ⟨8⟩), ("ixseps1", ⟨4⟩), ("jyseps1_1", ⟨1⟩), ("jyseps2_2", ⟨5⟩)], [], []⟩

def singleNullShape : GridShape Whole :=
  { nx := 8, ny := 8, nz := 1, mxg := 2, myg := 2, zMin := ⟨0⟩, zMax := ⟨1⟩, topology := .singleNull 8 4 1 5
    shiftAngle := none, twistShift := false, periodicX := false, staggerGrids := false, shiftXderivs := false
    incIntShear := false }

theorem read_singleNull : GridShape.read singleNullSource Options.empty = .ok (singleNullShape, []) := by
  simp only [GridShape.read, gridWhole, GridShape.readTopology, GridShape.readShiftAngle, Options.whole_empty,
    Options.flag_empty, Options.real_empty, Options.isSet_empty]
  rfl

theorem settle_singleNull : singleNullShape.settleSplit Options.empty 8 = .ok 2 := by
  simp only [GridShape.settleSplit, Options.isSet_empty]
  rfl

theorem defaults_empty [Scalar α] : Defaults.read (Options.empty : Options α) =
    .ok (⟨Defaults.places.map fun place => (place, place.2.fallback)⟩, []) := by
  simp only [Defaults.read, Defaults.choose, Options.isSet_empty]
  rfl

theorem transformName_empty [Scalar α] : transformName (Options.empty : Options α) = "identity" := by
  rw [transformName, Options.text_empty]
  decide +kernel

theorem load_singleNull : (Mesh.load singleNullSource Options.empty ⟨0, 8⟩).isOk = true := by
  rw [Mesh.load_of_steps read_singleNull settle_singleNull rfl rfl rfl rfl rfl rfl defaults_empty rfl transformName_empty]
  rfl

theorem load_divides_singleNull : ∃ g warnings nxpe nype meshes, (∀ i : Nat, i < 8 →
      Mesh.load singleNullSource Options.empty ⟨i, 8⟩ = .ok (meshes i, warnings) ∧ (meshes i).shape = g ∧
        (meshes i).nxpe = nxpe ∧ (meshes i).nype = nype) ∧ DivideGrid g nxpe nype 8 meshes := by
  have small (g : GridShape Whole) (warnings : List String)
      (read : GridShape.read singleNullSource Options.empty = .ok (g, warnings)) : g.Small 8 := by
    rw [read_singleNull] at read
    cases read
    exact ⟨by decide, by decide⟩
  rcases (load_divides_grid singleNullSource Options.empty 8 small).2 with ⟨failure, fails⟩ | accepted
  · have loaded := load_singleNull
    rw [show Mesh.load singleNullSource Options.empty ⟨0, 8⟩ = .error failure from fails 0 (by omega)] at loaded
    cases loaded
  · exact accepted

end HaloMesh
