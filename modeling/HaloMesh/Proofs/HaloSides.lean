import HaloMesh.Mesh.Guards
import HaloMesh.Proofs.Arrivals
import HaloMesh.Proofs.ExchangePath
import HaloMesh.Proofs.GridSplit

/-! The six sides of a block. On each of them a block of guard cells is filled with the interior cells that
the rank across sends from its opposite side, a block of the same size. -/

namespace HaloMesh
open Index (Partition)

variable {α : Type}

namespace Side

/-- The side on which the rank across sees this one. -/
def opposite : Side → Side
  | xOut => xIn
  | xIn => xOut
  | yOutInner => yInInner
  | yOutOuter => yInOuter
  | yInInner => yOutInner
  | yInOuter => yOutOuter

@[simp] theorem opposite_opposite (side : Side) : side.opposite.opposite = side := by cases side <;> rfl

def tag : Side → ExchangeTag
  | xOut => .inSentOut
  | xIn => .outSentIn
  | yOutInner => .innerSentUp
  | yOutOuter => .outerSentUp
  | yInInner => .innerSentDown
  | yInOuter => .outerSentDown

def ofTag : ExchangeTag → Side
  | .inSentOut => xOut
  | .outSentIn => xIn
  | .innerSentUp => yOutInner
  | .outerSentUp => yOutOuter
  | .innerSentDown => yInInner
  | .outerSentDown => yInOuter

@[simp] theorem ofTag_tag (side : Side) : ofTag side.tag = side := by cases side <;> rfl

theorem tag_number_injective {side other : Side} (same : side.tag.number = other.tag.number) : side = other := by
  revert same
  cases side <;> cases other <;> decide

end Side

/-- The phase to which a tag belongs. -/
def tagPhase (tag : Int) : Nat := if tag < 4 then 1 else 0

namespace GridShape

def xSides (g : GridShape α) : List Side := if g.mxg = 0 then [] else [.xIn, .xOut]

def ySides (g : GridShape α) : List Side := if g.myg = 0 then [] else [.yOutInner, .yOutOuter, .yInInner, .yInOuter]

theorem nodup_sides (g : GridShape α) : (g.xSides ++ g.ySides).Nodup := by
  unfold xSides ySides
  split <;> split <;> decide

theorem opposite_xSides {g : GridShape α} {side : Side} : side ∈ g.xSides → side.opposite ∈ g.xSides := by
  unfold xSides
  split
  · simp
  · cases side <;> decide

theorem opposite_ySides {g : GridShape α} {side : Side} : side ∈ g.ySides → side.opposite ∈ g.ySides := by
  unfold ySides
  split
  · simp
  · cases side <;> decide

theorem tagPhase_xSides {g : GridShape α} {side : Side} : side ∈ g.xSides → tagPhase side.tag.number = 0 := by
  unfold xSides
  split
  · simp
  · cases side <;> decide

theorem tagPhase_ySides {g : GridShape α} {side : Side} : side ∈ g.ySides → tagPhase side.tag.number = 1 := by
  unfold ySides
  split
  · simp
  · cases side <;> decide

end GridShape

namespace Mesh

/-- The cells that are sent on a side. -/
def sourceBlock (m : Mesh α) : Side → Block
  | .xIn => .between m.xstart (m.xstart + m.shape.mxg - 1) m.ystart m.yend
  | .xOut => .between (m.xend - m.shape.mxg + 1) m.xend m.ystart m.yend
  | .yOutInner => .between 0 (m.up.split - 1) (m.yend - m.shape.myg + 1) m.yend
  | .yOutOuter => .between m.up.split (m.localNx - 1) (m.yend - m.shape.myg + 1) m.yend
  | .yInInner => .between 0 (m.down.split - 1) m.ystart (m.ystart + m.shape.myg - 1)
  | .yInOuter => .between m.down.split (m.localNx - 1) m.ystart (m.ystart + m.shape.myg - 1)

/-- The guard cells that are filled on a side. -/
def targetBlock (m : Mesh α) : Side → Block
  | .xIn => .between 0 (m.shape.mxg - 1) m.ystart m.yend
  | .xOut => .between (m.xend + 1) (m.localNx - 1) m.ystart m.yend
  | .yOutInner => .between 0 (m.up.split - 1) (m.yend + 1) (m.localNy - 1)
  | .yOutOuter => .between m.up.split (m.localNx - 1) (m.yend + 1) (m.localNy - 1)
  | .yInInner => .between 0 (m.down.split - 1) 0 (m.shape.myg - 1)
  | .yInOuter => .between m.down.split (m.localNx - 1) 0 (m.shape.myg - 1)

def turnOn (m : Mesh α) (side : Side) : Int :=
  let turned (twist : Bool) (sign : Int) : Int := if twist && m.shape.twistShift then sign else 0
  match side with
  | .xIn | .xOut => 0
  | .yOutInner => turned m.up.innerTwist (-1)
  | .yOutOuter => turned m.up.outerTwist (-1)
  | .yInInner => turned m.down.innerTwist 1
  | .yInOuter => turned m.down.outerTwist 1

def leg (m : Mesh α) (side : Side) : Leg :=
  { destination := m.neighbour? side, sendTag := side.tag, receiveTag := side.opposite.tag
    source := m.sourceBlock side, target := m.targetBlock side, turn := m.turnOn side }

theorem xLegs_eq (m : Mesh α) : m.xLegs = m.shape.xSides.map m.leg := by
  unfold xLegs GridShape.xSides
  dsimp only
  split <;> rfl

theorem yLegs_eq (m : Mesh α) : m.yLegs = m.shape.ySides.map m.leg := by
  unfold yLegs GridShape.ySides
  dsimp only
  split <;> rfl

def regionOn (m : Mesh α) : Side → Region
  | .xIn => guardRegion "xin" .xin m.xin 0 (m.xstart - 1) m.ystart m.yend (-1) 0
  | .xOut => guardRegion "xout" .xout m.xout (m.xend + 1) (m.localNx - 1) m.ystart m.yend 1 0
  | .yInInner => guardRegion "lower_inner" .ydown m.down.inner 0 (m.down.split - 1) 0 (m.ystart - 1) 0 (-1)
  | .yInOuter =>
    guardRegion "lower_outer" .ydown m.down.outer m.down.split (m.localNx - 1) 0 (m.ystart - 1) 0 (-1)
  | .yOutInner => guardRegion "upper_inner" .yup m.up.inner 0 (m.up.split - 1) (m.yend + 1) (m.localNy - 1) 0 1
  | .yOutOuter =>
    guardRegion "upper_outer" .yup m.up.outer m.up.split (m.localNx - 1) (m.yend + 1) (m.localNy - 1) 0 1

theorem guardRegions_eq (m : Mesh α) : m.guardRegions =
    ([Side.xIn, .xOut, .yInInner, .yInOuter, .yOutInner, .yOutOuter].map m.regionOn).filter fun r => !r.isEmpty := rfl

theorem regionOn_seam (m : Mesh α) (side : Side) :
    (m.regionOn side).kind = .seam ↔ ∃ d, m.neighbour? side = some d := by
  have kind (destination : Option Int) :
      (if destination.isSome then RegionKind.seam else .boundary) = .seam ↔ ∃ d, destination = some d := by
    cases destination <;> simp
  cases side <;> exact kind _

/-- The guard cells across which there is a rank. -/
def Seam (m : Mesh α) (x y : Int) : Prop := ∃ r ∈ m.guardRegions, r.kind = .seam ∧ r.contains x y = true

/-- Whether a block with its guard cells is no larger than storage. -/
def HasRoom (m : Mesh α) : Prop :=
  ((m.xPart.piece m.pex.toNat).size + 2 * m.shape.mxg) * ((m.yPart.piece m.pey.toNat).size + 2 * m.shape.myg) *
    m.shape.nz ≤ Index.storageLimit

instance (m : Mesh α) : Decidable m.HasRoom := inferInstanceAs (Decidable (_ ≤ _))

end Mesh

namespace Layout

variable {l : Layout α} {i j : Nat} {m n : Mesh α}

def sourceBlock (l : Layout α) (i : Nat) : Side → Block
  | .xIn => ⟨l.shape.mxg, 2 * l.shape.mxg - 1, l.shape.myg, l.shape.myg + l.height i - 1⟩
  | .xOut => ⟨l.breadth i, l.breadth i + l.shape.mxg - 1, l.shape.myg, l.shape.myg + l.height i - 1⟩
  | .yOutInner => ⟨0, l.split i - 1, l.height i, l.height i + l.shape.myg - 1⟩
  | .yOutOuter => ⟨l.split i, l.breadth i + 2 * l.shape.mxg - 1, l.height i, l.height i + l.shape.myg - 1⟩
  | .yInInner => ⟨0, l.split i - 1, l.shape.myg, 2 * l.shape.myg - 1⟩
  | .yInOuter => ⟨l.split i, l.breadth i + 2 * l.shape.mxg - 1, l.shape.myg, 2 * l.shape.myg - 1⟩

def targetBlock (l : Layout α) (i : Nat) : Side → Block
  | .xIn => ⟨0, l.shape.mxg - 1, l.shape.myg, l.shape.myg + l.height i - 1⟩
  | .xOut => ⟨l.shape.mxg + l.breadth i, l.breadth i + 2 * l.shape.mxg - 1, l.shape.myg, l.shape.myg + l.height i - 1⟩
  | .yOutInner => ⟨0, l.split i - 1, l.shape.myg + l.height i, l.height i + 2 * l.shape.myg - 1⟩
  | .yOutOuter =>
    ⟨l.split i, l.breadth i + 2 * l.shape.mxg - 1, l.shape.myg + l.height i, l.height i + 2 * l.shape.myg - 1⟩
  | .yInInner => ⟨0, l.split i - 1, 0, l.shape.myg - 1⟩
  | .yInOuter => ⟨l.split i, l.breadth i + 2 * l.shape.mxg - 1, 0, l.shape.myg - 1⟩

/-- From a guard cell of rank `i` to the cell of rank `j` across the side that fills it. -/
def offset (l : Layout α) (i j : Nat) : Side → Int × Int
  | .xIn => (l.breadth j, 0)
  | .xOut => (-l.breadth i, 0)
  | .yOutInner | .yOutOuter => (0, -l.height i)
  | .yInInner | .yInOuter => (0, l.height j)

theorem shape_eq (given : l.Assigns i m) : m.shape = l.shape := by
  obtain ⟨-, _, _, _, _, _, -, -, rfl⟩ := given
  rfl

theorem rank_eq (given : l.Assigns i m) : m.endpoint = ⟨i, l.count⟩ := by
  obtain ⟨-, _, _, _, _, _, -, -, rfl⟩ := given
  rfl

theorem start_eq (given : l.Assigns i m) : m.xstart = l.shape.mxg ∧ m.ystart = l.shape.myg := by
  obtain ⟨-, _, _, _, _, _, -, -, rfl⟩ := given
  exact ⟨rfl, rfl⟩

theorem localNz_eq (given : l.Assigns i m) : m.localNz = l.shape.nz := by
  obtain ⟨-, _, _, _, _, _, -, -, rfl⟩ := given
  rfl

theorem pex_eq (given : l.Assigns i m) : m.pex = l.column i := by
  obtain ⟨-, _, _, _, _, _, -, -, rfl⟩ := given
  rfl

theorem offset_eq (given : l.Assigns i m) : m.offsetX = l.left i ∧ m.offsetY = l.bottom i - l.shape.myg := by
  obtain ⟨-, _, _, _, _, _, -, -, rfl⟩ := given
  exact ⟨rfl, rfl⟩

theorem split_range (words : l.InWords) (i : Nat) : 0 ≤ l.split i ∧ l.split i ≤ l.breadth i + 2 * l.shape.mxg := by
  have range := l.left_range i
  have guards := l.guards
  have limit := words.columns
  have exact : Index.wrap (l.breadth i + 2 * l.shape.mxg) = l.breadth i + 2 * l.shape.mxg :=
    Index.wrap_of_fits (by rw [Index.wordEnd_eq]; omega) (by omega)
  rw [split, exact]
  omega

theorem hasSide_iff (words : l.InWords) (i : Nat) (inner : Bool) : l.HasSide i inner ↔
    if inner then 0 < l.split i else l.split i < l.breadth i + 2 * l.shape.mxg := by
  have range := l.left_range i
  have guards := l.guards
  have limit := words.columns
  have exact : Index.wrap (l.breadth i + 2 * l.shape.mxg) = l.breadth i + 2 * l.shape.mxg :=
    Index.wrap_of_fits (by rw [Index.wordEnd_eq]; omega) (by omega)
  rw [HasSide, exact]

/-- Where words can count the cells, the blocks of a rank are the exact ones. -/
theorem blocks_eq (words : l.InWords) (given : l.Assigns i m) (side : Side) :
    m.sourceBlock side = l.sourceBlock i side ∧ m.targetBlock side = l.targetBlock i side := by
  have up : m.up.split = l.split i := split_eq given true
  have down : m.down.split = l.split i := split_eq given false
  obtain ⟨startX, startY⟩ := start_eq given
  have range := l.left_range i
  have tall := bottom_range given.1
  have guards := l.guards
  have wide := words.columns
  have high : l.height i + 2 * l.shape.myg < Text.wordEnd := words.rows _ (row_lt given.1)
  have splits := split_range words i
  have fits (n k : Int) (same : n = k) (low : -1 ≤ k) (limit : k < Text.wordEnd) : Index.wrap n = k := by
    rw [same]
    exact Index.wrap_of_fits (by rw [Index.wordEnd_eq]; omega) limit
  cases side <;>
    simp only [Mesh.sourceBlock, Mesh.targetBlock, sourceBlock, targetBlock, Block.between, Block.mk.injEq, up, down,
      startX, startY, shape_eq given, xend_eq words given, yend_eq words given, localNx_eq words given,
      localNy_eq words given] <;>
    refine ⟨⟨?_, ?_, ?_, ?_⟩, ?_, ?_, ?_, ?_⟩ <;> apply fits <;> omega

/-! Storage for the fields of a block. -/

theorem hasRoom_iff (given : l.Assigns i m) : m.HasRoom ↔
    (l.breadth i + 2 * l.shape.mxg) * (l.height i + 2 * l.shape.myg) * l.shape.nz ≤ Index.storageLimit := by
  obtain ⟨-, _, _, _, _, _, -, -, rfl⟩ := given
  simp only [Mesh.HasRoom, block, Int.toNat_natCast, Partition.piece_eq l.columns_nonneg,
    Partition.piece_eq l.rows_nonneg, Index.Piece.size]
  rfl

/-- Words can count the cells of all blocks where one of them fits into storage. -/
theorem inWords_of_room (given : l.Assigns i m) (room : m.HasRoom) : l.InWords := by
  have wide := l.left_range i
  have tall := bottom_range given.1
  have guards := l.guards
  have depth := l.depth
  rw [hasRoom_iff given, show Index.storageLimit = 35184372088832 from rfl] at room
  have area : 0 < (l.breadth i + 2 * l.shape.mxg) * (l.height i + 2 * l.shape.myg) :=
    Int.mul_pos (by omega) (by omega)
  have flat : (l.breadth i + 2 * l.shape.mxg) * (l.height i + 2 * l.shape.myg) ≤ 35184372088832 :=
    Int.le_trans (le_mul_of_one_le_right (by omega) depth) room
  have columns : l.breadth i + 2 * l.shape.mxg ≤ 35184372088832 :=
    Int.le_trans (le_mul_of_one_le_right (by omega) (by omega)) flat
  have rows : l.height i + 2 * l.shape.myg ≤ 35184372088832 :=
    Int.le_trans (le_mul_of_one_le_left (by omega) (by omega)) flat
  refine ⟨l.columns_fit (by rw [Index.wordEnd_eq]; omega), fun k _ => ?_⟩
  have least : l.rows.share ≤ l.height i := Partition.share_le_size l.rows_nonneg _
  have most := Partition.size_le_share l.rows_nonneg k
  rw [Index.wordEnd_eq]
  omega

section Shaped

variable {f : Field α} (given : l.Assigns i m) (room : m.HasRoom) (shaped : f.extents = m.extents)
include given room shaped

theorem sizes_eq : (f.nx : Int) = l.breadth i + 2 * l.shape.mxg ∧ (f.ny : Int) = l.height i + 2 * l.shape.myg ∧
    (f.nz : Int) = l.shape.nz := by
  have words := inWords_of_room given room
  have width := localNx_eq words given
  have height := localNy_eq words given
  simp only [Field.extents, Mesh.extents, Extents.mk.injEq, width, height, localNz_eq given] at shaped
  exact shaped

theorem ofShape_of_room : f.OfShape m.extents := by
  obtain ⟨width, height, depth⟩ := sizes_eq given room shaped
  refine ⟨shaped, ?_⟩
  rw [hasRoom_iff given] at room
  rw [Field.Fits]
  push_cast
  rw [width, height, depth]
  exact room

theorem hasColumn_iff {x y : Int} : f.HasColumn x y ↔
    (0 ≤ x ∧ x < l.breadth i + 2 * l.shape.mxg) ∧ 0 ≤ y ∧ y < l.height i + 2 * l.shape.myg := by
  obtain ⟨width, height, -⟩ := sizes_eq given room shaped
  rw [Field.HasColumn, width, height]

theorem target_within (side : Side) : (l.targetBlock i side).Within f := by
  intro x y inside
  rw [hasColumn_iff given room shaped]
  have range := l.left_range i
  have tall := bottom_range given.1
  have guards := l.guards
  have splits := split_range (inWords_of_room given room) i
  cases side <;> simp only [targetBlock, Block.Contains] at inside <;> omega

theorem source_within (side : Side) : (l.sourceBlock i side).Within f := by
  intro x y inside
  rw [hasColumn_iff given room shaped]
  have range := l.left_range i
  have tall := bottom_range given.1
  have guards := l.guards
  have splits := split_range (inWords_of_room given room) i
  cases side <;> simp only [sourceBlock, Block.Contains] at inside <;> omega

end Shaped

/-- No cell is a guard on two sides. -/
theorem target_unique {i : Nat} (inside : i < l.count) {side other : Side} {x y : Int}
    (first : (l.targetBlock i side).Contains x y) (second : (l.targetBlock i other).Contains x y) : side = other := by
  have wide := l.left_range i
  have tall := bottom_range inside
  have guards := l.guards
  cases side <;> cases other <;> first
    | rfl
    | simp only [targetBlock, Block.Contains] at first second; omega

/-! Ranks across a side. -/

private theorem side_some {link : Link} {inner : Bool} {j : Int} :
    (link.side inner).1 = some j ↔ ∃ twist, link.side inner = (some j, twist) :=
  ⟨fun found => ⟨(link.side inner).2, Prod.ext found rfl⟩, fun ⟨_, same⟩ => by rw [same]⟩

/-- Two ranks see each other on opposite sides. -/
theorem neighbour_mutual (first : l.Assigns i m) (second : l.Assigns j n) (side : Side) :
    m.neighbour? side = some (j : Int) ↔ n.neighbour? side.opposite = some (i : Int) := by
  have along : m.xout = some (j : Int) ↔ n.xin = some (i : Int) := by
    rw [assigned_xout first, assigned_xin second, and_iff_right first.1, and_iff_right second.1]
  have back : m.xin = some (j : Int) ↔ n.xout = some (i : Int) := by
    rw [assigned_xin first, assigned_xout second, and_iff_right first.1, and_iff_right second.1]
  have upward (inner : Bool) : (m.up.side inner).1 = some (j : Int) ↔ (n.down.side inner).1 = some (i : Int) := by
    simp only [side_some, side_mutual first second]
  have downward (inner : Bool) : (m.down.side inner).1 = some (j : Int) ↔ (n.up.side inner).1 = some (i : Int) := by
    simp only [side_some, side_mutual second first]
  cases side with
  | xOut => exact along
  | xIn => exact back
  | yOutInner => exact upward true
  | yOutOuter => exact upward false
  | yInInner => exact downward true
  | yInOuter => exact downward false

theorem column_across (given : l.Assigns i m) {up inner : Bool} (across : ((m.link up).side inner).1 = some (j : Int)) :
    l.HasSide i inner ∧ l.column j = l.column i := by
  obtain ⟨twist, found⟩ := side_some.mp across
  obtain ⟨has, -, columns, -⟩ := (assigned_side given up inner twist).mp found
  exact ⟨has, columns⟩

theorem breadth_congr (same : l.column j = l.column i) : l.breadth j = l.breadth i := by
  simp only [breadth, left, same]

theorem height_congr (same : l.row j = l.row i) : l.height j = l.height i := by
  simp only [height, bottom, same]

/-- What fills the guard cells of a side is sent from the same cells, seen from the rank across. -/
theorem source_moved (given : l.Assigns i m) {side : Side} (across : m.neighbour? side = some (j : Int)) :
    l.sourceBlock j side.opposite = (l.targetBlock i side).moved (l.offset i j side).1 (l.offset i j side).2 := by
  have vertical (up inner : Bool) (found : ((m.link up).side inner).1 = some (j : Int)) :
      l.breadth j = l.breadth i ∧ l.split j = l.split i :=
    have columns := (column_across given found).2
    ⟨breadth_congr columns, split_congr columns⟩
  cases side with
  | xOut =>
    have same := height_congr ((assigned_xout given).mp across).2.1.symm
    simp only [Side.opposite, sourceBlock, targetBlock, offset, Block.moved, Block.mk.injEq, same]
    omega
  | xIn =>
    have same := height_congr ((assigned_xin given).mp across).2.1
    simp only [Side.opposite, sourceBlock, targetBlock, offset, Block.moved, Block.mk.injEq, same]
    omega
  | yOutInner =>
    obtain ⟨-, split⟩ := vertical true true across
    simp only [Side.opposite, sourceBlock, targetBlock, offset, Block.moved, Block.mk.injEq, split]
    omega
  | yOutOuter =>
    obtain ⟨breadth, split⟩ := vertical true false across
    simp only [Side.opposite, sourceBlock, targetBlock, offset, Block.moved, Block.mk.injEq, breadth, split]
    omega
  | yInInner =>
    obtain ⟨-, split⟩ := vertical false true across
    simp only [Side.opposite, sourceBlock, targetBlock, offset, Block.moved, Block.mk.injEq, split]
    omega
  | yInOuter =>
    obtain ⟨breadth, split⟩ := vertical false false across
    simp only [Side.opposite, sourceBlock, targetBlock, offset, Block.moved, Block.mk.injEq, breadth, split]
    omega

theorem source_nonempty (words : l.InWords) (given : l.Assigns i m) {side : Side} {d : Int}
    (guarded : side ∈ l.shape.xSides ++ l.shape.ySides) (across : m.neighbour? side = some d) :
    (m.sourceBlock side).isEmpty = false := by
  obtain ⟨j, -, rfl⟩ := neighbour_lt given across
  have wide := l.left_range i
  have tall := bottom_range given.1
  have guards := l.guards
  have vertical (up inner : Bool) (found : ((m.link up).side inner).1 = some (j : Int)) :=
    (hasSide_iff words i inner).mp (column_across given found).1
  have present : if side = .xIn ∨ side = .xOut then l.shape.mxg ≠ 0 else l.shape.myg ≠ 0 := by
    simp only [GridShape.xSides, GridShape.ySides, List.mem_append] at guarded
    split
    next along =>
      intro none
      rcases along with rfl | rfl <;> simp [none] at guarded
    next vertical =>
      intro none
      rw [not_or] at vertical
      simp only [none, ↓reduceIte, List.not_mem_nil, or_false] at guarded
      split at guarded
      · cases guarded
      · simp [vertical] at guarded
  rw [(blocks_eq words given side).1]
  simp only [Block.isEmpty, Bool.or_eq_false_iff, decide_eq_false_iff_not, not_lt]
  cases side with
  | xOut | xIn =>
    simp only [reduceCtorEq, or_true, or_false, ↓reduceIte] at present
    simp only [sourceBlock]
    omega
  | yOutInner =>
    have has := vertical true true across
    simp only [reduceCtorEq, or_self, ↓reduceIte] at present has
    simp only [sourceBlock]
    omega
  | yOutOuter =>
    have has := vertical true false across
    simp only [reduceCtorEq, or_self, Bool.false_eq_true, ↓reduceIte] at present has
    simp only [sourceBlock]
    omega
  | yInInner =>
    have has := vertical false true across
    simp only [reduceCtorEq, or_self, ↓reduceIte] at present has
    simp only [sourceBlock]
    omega
  | yInOuter =>
    have has := vertical false false across
    simp only [reduceCtorEq, or_self, Bool.false_eq_true, ↓reduceIte] at present has
    simp only [sourceBlock]
    omega

theorem talking_eq (words : l.InWords) (given : l.Assigns i m) {sides : List Side}
    (guarded : ∀ side ∈ sides, side ∈ l.shape.xSides ++ l.shape.ySides) : talking (sides.map m.leg) =
      sides.filterMap fun side => (m.neighbour? side).map fun d => (m.leg side, d) := by
  rw [talking, List.filterMap_map]
  apply List.filterMap_congr
  intro side member
  change (if (m.sourceBlock side).isEmpty = true then none else (m.neighbour? side).map fun d => (m.leg side, d)) = _
  cases across : m.neighbour? side with
  | none => simp
  | some d => simp [source_nonempty words given (guarded side member) across]

theorem reaches_sides (given : l.Assigns i m) (sides : List Side) : m.Reaches (sides.map m.leg) := by
  intro leg member d across
  obtain ⟨side, -, rfl⟩ := List.mem_map.mp member
  obtain ⟨k, inside, rfl⟩ := neighbour_lt given across
  simp only [rank_eq given, Transport.Endpoint.reaches, Bool.and_eq_true, decide_eq_true_eq]
  omega

/-- The seams are the guard cells on the sides that have a rank across. -/
theorem seam_iff (words : l.InWords) (given : l.Assigns i m) {x y : Int} :
    m.Seam x y ↔ ∃ side d, m.neighbour? side = some d ∧ (l.targetBlock i side).Contains x y := by
  obtain ⟨startX, startY⟩ := start_eq given
  have shape := shape_eq given
  have holds (side : Side) : (m.regionOn side).contains x y = true ↔ (l.targetBlock i side).Contains x y := by
    rw [← (blocks_eq words given side).2]
    cases side <;>
      simp [Mesh.regionOn, Mesh.targetBlock, Mesh.guardRegion, Region.restart, Region.contains, Block.Contains,
        Block.between, and_assoc, startX, startY, shape]
  simp only [Mesh.Seam, Mesh.guardRegions_eq, List.mem_filter, List.mem_map]
  constructor
  · intro known
    obtain ⟨r, ⟨⟨side, -, rfl⟩, -⟩, seam, inside⟩ := known
    obtain ⟨d, across⟩ := (m.regionOn_seam side).mp seam
    exact ⟨side, d, across, (holds side).mp inside⟩
  · intro known
    obtain ⟨side, d, across, inside⟩ := known
    have contained := (holds side).mpr inside
    refine ⟨m.regionOn side, ⟨⟨side, by cases side <;> simp, rfl⟩, ?_⟩, (m.regionOn_seam side).mpr ⟨d, across⟩, contained⟩
    simp only [Region.contains, Bool.and_eq_true, decide_eq_true_eq] at contained
    simp only [Region.isEmpty, Bool.not_eq_true', Bool.or_eq_false_iff, decide_eq_false_iff_not, not_lt]
    omega

end Layout
end HaloMesh
