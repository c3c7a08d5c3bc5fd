import HaloMesh.Proofs.Communication
import HaloMesh.Proofs.GuardWalks
import HaloMesh.Proofs.OptionKeys

/-! The guard cells of a block are described more than once: as regions, as walks over columns, as questions about one
column, and as the blocks that an exchange fills. As long as words can count the cells, all of these agree with each
other and with the topology of the grid. -/

namespace HaloMesh
open Index (Partition Walk)

variable {α : Type}

namespace Topology

variable {t : Topology} {ny row : Int}

/-- With legs, the rows inside and outside the separatrix end at the same place. -/
theorem ends_alike (proper : t.Proper ny) (legs : t.cuts ≠ []) (high : row < ny) (up : Bool) :
    (t.step up row true).row = none ↔ (t.step up row false).row = none := by
  cases t with
  | rectangular rows periodic => exact absurd rfl legs
  | singleNull rows separatrix leg1 leg2 =>
    obtain rfl : rows = ny := proper.2.1
    obtain ⟨words, -, first, order, last, paired⟩ := proper
    have top : Index.previous rows = rows - 1 :=
      Index.previous_of_lt (by rw [Index.least, Index.wordEnd_eq]; omega)
    have legged : 0 ≤ leg1 := by
      by_contra none
      refine legs ?_
      rw [cuts, if_neg none, if_neg (by omega), List.append_nil]
    have below : Index.next leg1 = leg1 + 1 := Index.next_of_lt (by omega)
    have above : Index.next leg2 = leg2 + 1 := Index.next_of_lt (by omega)
    cases up with
    | true =>
      simp only [step, ↓reduceIte, Topology.up, top, true_and, Bool.false_eq_true, false_and]
      split_ifs <;> simp <;> omega
    | false =>
      simp only [step, Bool.false_eq_true, ↓reduceIte, down, below, above, true_and, false_and]
      split_ifs <;> simp <;> omega

end Topology

namespace Mesh

/-- Whether the guard cells at one end of a column are a physical boundary. -/
def endsAt (m : Mesh α) (up : Bool) (x : Int) : Bool := if up then m.isLastYAt x else m.isFirstYAt x

def GuardRow (m : Mesh α) (up : Bool) (y : Int) : Prop :=
  if up then m.yend < y ∧ y < m.localNy else 0 ≤ y ∧ y < m.ystart

/-- All descriptions of the guard cells of a block agree. -/
structure GuardsAgree (m : Mesh α) : Prop where
  once : (m.guardRegions.flatMap Region.cells).Nodup
  covers : ∀ x y, (x, y) ∈ m.guardRegions.flatMap Region.cells ↔
    ((0 ≤ x ∧ x < m.localNx) ∧ 0 ≤ y ∧ y < m.localNy) ∧ m.isInterior x y = false
  /-- Restarted and advanced, a region goes through its cells in as many steps as its size says. -/
  walks : ∀ r ∈ m.guardRegions, ∀ k : Nat,
    (r.cells[k]? = if (Region.advance^[k] r.restart).isDone then none
      else some ((Region.advance^[k] r.restart).x, (Region.advance^[k] r.restart).y)) ∧
    ((Region.advance^[k] r.restart).isDone = true ↔ r.size ≤ k)
  /-- The seams are what an exchange receives into. -/
  seams : ∀ x y, m.Seam x y ↔ ∃ leg ∈ m.xLegs ++ m.yLegs, leg.destination.isSome = true ∧
    leg.source.isEmpty = false ∧ leg.target.Contains x y
  boundaries : ∀ warnings, (Rank.ofMesh m warnings).boundaries = m.guardRegions.filter fun r => decide (r.kind = .boundary)
  /-- The walk over the columns that end at a boundary, and the question about one column. -/
  columns : ∀ up x, 0 ≤ x → x < m.localNx → (x ∈ (m.boundaryWalk (m.link up)).indices ↔ m.endsAt up x = true)
  topology : ∀ up x, 0 ≤ x → x < m.localNx → (m.endsAt up x = true ↔ (m.shape.topology.step up (m.globalY (m.edgeRow up))
    (decide (m.globalX x < m.shape.topology.separatrix))).row = none)
  regions : ∀ up x, 0 ≤ x → x < m.localNx → (m.endsAt up x = true ↔
    ∃ r ∈ m.guardRegions, r.kind = .boundary ∧ ∀ y, m.GuardRow up y → r.contains x y = true)
  lists : ∀ up, ∀ w ∈ [innerBoundaryWalk (m.link up), m.outerBoundaryWalk (m.link up), m.boundaryWalk (m.link up)],
    w.Lists w.indices
  halves : ∀ up, (innerBoundaryWalk (m.link up)).indices ++ (m.outerBoundaryWalk (m.link up)).indices =
    (m.boundaryWalk (m.link up)).indices
  present : ∀ up, m.hasBoundary (m.link up) = true ↔ (m.boundaryWalk (m.link up)).indices ≠ []

/-- Whether words can count the columns and rows of every block, guard cells included, and the cells of every guard
region. -/
structure Counted (m : Mesh α) : Prop where
  columns : ∀ k < m.xPart.parts, (m.xPart.piece k).size + 2 * m.shape.mxg < Text.wordEnd
  rows : ∀ k < m.yPart.parts, (m.yPart.piece k).size + 2 * m.shape.myg < Text.wordEnd
  cells : ∀ r ∈ m.guardRegions, r.count < Text.wordEnd

theorem mem_guardRegions {m : Mesh α} {r : Region} :
    r ∈ m.guardRegions ↔ (∃ side, m.regionOn side = r) ∧ r.isEmpty = false := by
  rw [guardRegions_eq, List.mem_filter, List.mem_map, Bool.not_eq_true']
  refine and_congr_left fun _ => ⟨fun known => ?_, fun known => ?_⟩
  · obtain ⟨side, -, same⟩ := known
    exact ⟨side, same⟩
  · obtain ⟨side, same⟩ := known
    exact ⟨side, by cases side <;> simp, same⟩

theorem regionOn_boundary (m : Mesh α) (side : Side) : (m.regionOn side).kind = .boundary ↔ m.neighbour? side = none := by
  have seam := m.regionOn_seam side
  cases across : m.neighbour? side with
  | none =>
    rw [across] at seam
    refine iff_of_true ?_ rfl
    cases kind : (m.regionOn side).kind with
    | seam => simp [kind] at seam
    | boundary => rfl
  | some d =>
    rw [seam.mpr ⟨d, across⟩]
    exact iff_of_false nofun nofun

section Boundary

variable {destination : Option Int} {lo hi x : Int} (nonneg : 0 ≤ hi)
include nonneg

theorem boundarySegment_last (few : hi < Text.wordEnd) : (boundarySegment destination lo hi).last < Index.greatest := by
  have before : Index.previous hi = hi - 1 := Index.previous_of_lt (by rw [Index.least, Index.wordEnd_eq]; omega)
  cases destination with
  | none => simp only [boundarySegment, Option.isSome_none, Bool.false_eq_true, ↓reduceIte, before, Index.greatest]; omega
  | some d => exact Int.negSucc_lt_zero 0 |>.trans (by decide)

theorem mem_boundarySegment :
    x ∈ Index.span (boundarySegment destination lo hi).first (boundarySegment destination lo hi).last ↔
      destination = none ∧ lo ≤ x ∧ x < hi := by
  have before : Index.previous hi = hi - 1 := Index.previous_of_lt (by rw [Index.least, Index.wordEnd_eq]; omega)
  rw [Index.mem_span, boundarySegment, before]
  cases destination with
  | none => simp only [Option.isSome_none, Bool.false_eq_true, ↓reduceIte, true_and]; omega
  | some d => simp only [Option.isSome_some, ↓reduceIte, reduceCtorEq, false_and, iff_false]; omega

end Boundary

section BoundaryWalk

variable {m : Mesh α} {l : Link} {x : Int} (low : 0 ≤ l.split) (high : l.split ≤ m.localNx) (few : m.localNx < Text.wordEnd)
include low high few

theorem boundary_ending (segments : List Index.Segment)
    (among : segments ∈ [[innerBoundary l], [m.outerBoundary l], [innerBoundary l, m.outerBoundary l]]) :
    Walk.Ending segments := by
  have inner : (innerBoundary l).last < Index.greatest := boundarySegment_last low (by omega)
  have outer : (m.outerBoundary l).last < Index.greatest := boundarySegment_last (by omega) few
  simp only [List.mem_cons, List.not_mem_nil, or_false] at among
  rcases among with rfl | rfl | rfl <;> simp [Walk.Ending, inner, outer]

/-- The columns that end at a boundary, in order. -/
theorem boundary_listed : (m.boundaryWalk l).indices = Walk.listed [innerBoundary l, m.outerBoundary l] ∧
    (innerBoundaryWalk l).indices = Walk.listed [innerBoundary l] ∧
    (m.outerBoundaryWalk l).indices = Walk.listed [m.outerBoundary l] :=
  have ending := boundary_ending low high few
  ⟨Walk.indices_through (ending _ (by simp)), Walk.indices_through (ending _ (by simp)),
    Walk.indices_through (ending _ (by simp))⟩

theorem mem_boundaryWalk : x ∈ (m.boundaryWalk l).indices ↔
    l.inner = none ∧ 0 ≤ x ∧ x < l.split ∨ l.outer = none ∧ l.split ≤ x ∧ x < m.localNx := by
  rw [(boundary_listed low high few).1, Walk.listed, List.flatMap_cons, List.flatMap_cons, List.flatMap_nil, List.append_nil,
    List.mem_append]
  exact or_congr (mem_boundarySegment low) (mem_boundarySegment (by omega))

end BoundaryWalk

theorem endsAt_iff {m : Mesh α} {up : Bool} {x : Int} : m.endsAt up x = true ↔
    if x < (m.link up).split then (m.link up).inner = none else (m.link up).outer = none := by
  have down : m.isFirstYAt x = (m.down.destination x).isNone := rfl
  have above : m.isLastYAt x = (m.up.destination x).isNone := rfl
  cases up <;> simp only [endsAt, link, down, above, Link.destination, Bool.false_eq_true, ↓reduceIte] <;> split <;> simp

end Mesh

namespace Layout

variable {l : Layout α} {i : Nat} {m : Mesh α} {x y : Int}

theorem inWords_of_counted (given : l.Assigns i m) (counted : m.Counted) : l.InWords := by
  obtain ⟨inside, _, _, _, _, _, -, -, rfl⟩ := given
  have some_ := counted.columns 0 l.columns.positive
  have wide := l.column_sizes 0
  simp only [block, Partition.piece_eq l.columns_nonneg, Index.Piece.size] at some_
  refine ⟨l.columns_fit (by omega), fun k within => ?_⟩
  have tall := counted.rows k within
  simpa only [block, Partition.piece_eq l.rows_nonneg, Index.Piece.size] using tall

/-- The rectangle of a region is the block that is filled on its side. -/
theorem region_block (words : l.InWords) (given : l.Assigns i m) (side : Side) :
    (m.regionOn side).block = l.targetBlock i side := by
  obtain ⟨startX, startY⟩ := start_eq given
  rw [← (blocks_eq words given side).2]
  cases side <;>
    simp [Mesh.regionOn, Mesh.targetBlock, Mesh.guardRegion, Region.restart, Region.block, Block.between, startX, startY,
      shape_eq given]

theorem region_words (words : l.InWords) (given : l.Assigns i m) (side : Side) :
    (m.regionOn side).xe < Index.greatest ∧ (m.regionOn side).ye < Index.greatest := by
  have same := region_block words given side
  have splits := split_range words i
  have range := l.left_range i
  have tall := bottom_range given.1
  have guards := l.guards
  have wide := words.columns
  have high : l.height i + 2 * l.shape.myg < Text.wordEnd := words.rows _ (row_lt given.1)
  have ends : (m.regionOn side).xe = (l.targetBlock i side).x1 ∧ (m.regionOn side).ye = (l.targetBlock i side).y1 :=
    ⟨congrArg Block.x1 same, congrArg Block.y1 same⟩
  rw [ends.1, ends.2, Index.greatest]
  cases side <;> simp only [targetBlock] <;> omega

theorem mem_region_cells (words : l.InWords) (given : l.Assigns i m) {side : Side} :
    (x, y) ∈ (m.regionOn side).cells ↔ (l.targetBlock i side).Contains x y := by
  rw [(Region.cells_walk (region_words words given side)).1, Block.mem_columns, region_block words given]

/-- A region that holds a cell is one of the regions of its block. -/
theorem region_listed (words : l.InWords) (given : l.Assigns i m) {side : Side}
    (inside : (l.targetBlock i side).Contains x y) : m.regionOn side ∈ m.guardRegions := by
  rw [← region_block words given] at inside
  refine Mesh.mem_guardRegions.mpr ⟨⟨side, rfl⟩, ?_⟩
  simp only [Block.Contains, Region.block] at inside
  simp only [Region.isEmpty, Bool.or_eq_false_iff, decide_eq_false_iff_not]
  omega

theorem mem_guard_cells (words : l.InWords) (given : l.Assigns i m) :
    (x, y) ∈ m.guardRegions.flatMap Region.cells ↔ ∃ side, (l.targetBlock i side).Contains x y := by
  rw [List.mem_flatMap]
  constructor
  · intro known
    obtain ⟨r, member, visited⟩ := known
    obtain ⟨⟨side, rfl⟩, -⟩ := Mesh.mem_guardRegions.mp member
    exact ⟨side, (mem_region_cells words given).mp visited⟩
  · intro known
    obtain ⟨side, inside⟩ := known
    exact ⟨m.regionOn side, region_listed words given inside, (mem_region_cells words given).mpr inside⟩

/-- Every guard cell is filled on some side. -/
theorem guard_iff (words : l.InWords) (given : l.Assigns i m) : (∃ side, (l.targetBlock i side).Contains x y) ↔
    ((0 ≤ x ∧ x < m.localNx) ∧ 0 ≤ y ∧ y < m.localNy) ∧ m.isInterior x y = false := by
  have range := l.left_range i
  have tall := bottom_range given.1
  have guards := l.guards
  have splits := split_range words i
  rw [← Bool.not_eq_true, isInterior_iff words given, localNx_eq words given, localNy_eq words given]
  constructor
  · intro known
    obtain ⟨side, inside⟩ := known
    cases side <;> simp only [targetBlock, Block.Contains] at inside <;> omega
  · intro known
    by_cases low : y < l.shape.myg
    · by_cases inner : x < l.split i
      · exact ⟨.yInInner, by simp only [targetBlock, Block.Contains]; omega⟩
      · exact ⟨.yInOuter, by simp only [targetBlock, Block.Contains]; omega⟩
    · by_cases high : l.shape.myg + l.height i ≤ y
      · by_cases inner : x < l.split i
        · exact ⟨.yOutInner, by simp only [targetBlock, Block.Contains]; omega⟩
        · exact ⟨.yOutOuter, by simp only [targetBlock, Block.Contains]; omega⟩
      · by_cases left : x < l.shape.mxg
        · exact ⟨.xIn, by simp only [targetBlock, Block.Contains]; omega⟩
        · exact ⟨.xOut, by simp only [targetBlock, Block.Contains]; omega⟩

theorem guard_cells_once (words : l.InWords) (given : l.Assigns i m) : (m.guardRegions.flatMap Region.cells).Nodup := by
  rw [List.nodup_flatMap]
  constructor
  · intro r member
    obtain ⟨⟨side, rfl⟩, -⟩ := Mesh.mem_guardRegions.mp member
    rw [(Region.cells_walk (region_words words given side)).1]
    exact Block.nodup_columns _
  · rw [Mesh.guardRegions_eq]
    refine List.Pairwise.filter _ (List.pairwise_map.mpr ?_)
    have apart : [Side.xIn, .xOut, .yInInner, .yInOuter, .yOutInner, .yOutOuter].Nodup := by decide
    refine apart.imp fun {side other} different => ?_
    rintro ⟨x, y⟩ first second
    exact different (target_unique given.1 ((mem_region_cells words given).mp first) ((mem_region_cells words given).mp second))

/-- Where the fields of a block fit into storage, words can count its cells. -/
theorem counted_of_room (given : l.Assigns i m) (room : m.HasRoom) : m.Counted := by
  have words := inWords_of_room given room
  have range := l.left_range i
  have tall := bottom_range given.1
  have guards := l.guards
  have splits := split_range words i
  have blocks (side : Side) := region_block words given side
  have most := (hasRoom_iff given).mp room
  obtain ⟨inside, _, _, _, _, _, -, -, rfl⟩ := given
  refine ⟨fun k within => ?_, fun k within => ?_, fun r member => ?_⟩
  · have low := Partition.bound_mono l.columns_nonneg (Nat.zero_le k)
    have high := Partition.bound_mono l.columns_nonneg (show k + 1 ≤ l.columns.parts from within)
    have limit := words.columns
    rw [Partition.bound_zero l.columns_nonneg] at low
    rw [Partition.bound_parts, l.allColumns] at high
    simp only [block, Partition.piece_eq l.columns_nonneg, Index.Piece.size]
    omega
  · simpa only [block, Partition.piece_eq l.rows_nonneg, Index.Piece.size] using words.rows k within
  · obtain ⟨⟨side, rfl⟩, -⟩ := Mesh.mem_guardRegions.mp member
    have within : ((l.targetBlock i side).x1 - (l.targetBlock i side).x0 + 1 ≤ l.breadth i + 2 * l.shape.mxg ∧
        (l.targetBlock i side).y1 - (l.targetBlock i side).y0 + 1 ≤ l.height i + 2 * l.shape.myg) := by
      cases side <;> simp only [targetBlock] <;> omega
    rw [← blocks side] at within
    simp only [Region.block] at within
    rw [Region.count]
    split
    · rw [Index.wordEnd_eq]
      decide
    next some_ =>
      simp only [Region.isEmpty, Bool.or_eq_true, decide_eq_true_eq, not_or, not_lt] at some_
      calc (_ : Int) ≤ (l.breadth i + 2 * l.shape.mxg) * (l.height i + 2 * l.shape.myg) :=
            Int.mul_le_mul within.1 within.2 (by omega) (by omega)
        _ ≤ (l.breadth i + 2 * l.shape.mxg) * (l.height i + 2 * l.shape.myg) * l.shape.nz :=
            le_mul_of_one_le_right (Int.mul_nonneg (by omega) (by omega)) l.depth
        _ ≤ Index.storageLimit := most
        _ < Text.wordEnd := by decide

/-- What an exchange receives into. -/
theorem seam_legs (words : l.InWords) (given : l.Assigns i m) : m.Seam x y ↔ ∃ leg ∈ m.xLegs ++ m.yLegs,
    leg.destination.isSome = true ∧ leg.source.isEmpty = false ∧ leg.target.Contains x y := by
  have shape := shape_eq given
  rw [seam_iff words given, m.xLegs_eq, m.yLegs_eq, ← List.map_append, shape]
  constructor
  · intro known
    obtain ⟨side, d, across, inside⟩ := known
    have guarded : side ∈ l.shape.xSides ++ l.shape.ySides := by
      have which := mem_sides inside
      split at which
      · exact List.mem_append_left _ which
      · exact List.mem_append_right _ which
    refine ⟨m.leg side, List.mem_map.mpr ⟨side, guarded, rfl⟩, ?_, source_nonempty words given guarded across, ?_⟩
    · exact Option.isSome_iff_exists.mpr ⟨d, across⟩
    · change (m.targetBlock side).Contains x y
      rw [(blocks_eq words given side).2]
      exact inside
  · intro known
    obtain ⟨leg, member, across, -, inside⟩ := known
    obtain ⟨side, -, rfl⟩ := List.mem_map.mp member
    obtain ⟨d, found⟩ := Option.isSome_iff_exists.mp across
    exact ⟨side, d, found, (blocks_eq words given side).2 ▸ inside⟩

/-! The columns that end at a boundary. -/

/-- Where a rank has columns on a side of the split, they end if the rows there do. -/
theorem side_none (given : l.Assigns i m) {up inner : Bool} (has : l.HasSide i inner) :
    ((m.link up).side inner).1 = none ↔ (l.shape.topology.step up (l.edge up (l.row i)) inner).row = none := by
  rw [← not_iff_not, ← ne_eq, ← ne_eq, Option.ne_none_iff_exists', Option.ne_none_iff_exists']
  constructor
  · intro known
    obtain ⟨d, across⟩ := known
    have there : m.neighbour? (.vertical up inner) = some d := (m.neighbour?_vertical up inner).trans across
    obtain ⟨j, -, rfl⟩ := neighbour_lt given there
    obtain ⟨-, -, -, beside⟩ := (assigned_side given up inner _).mp (Prod.ext across rfl)
    exact ⟨_, congrArg RowStep.row beside.2.2⟩
  · intro known
    obtain ⟨row, stepped⟩ := known
    have enters : l.shape.topology.step up (l.edge up (l.row i)) inner =
        ⟨some row, (l.shape.topology.step up (l.edge up (l.row i)) inner).twist⟩ := by rw [← stepped]
    obtain ⟨other, -, beside⟩ := step_enters (row_lt given.1) enters
    obtain ⟨j, within, columns, rfl⟩ := l.exists_rank (l.column_lt i) beside.2.1
    exact ⟨j, congrArg Prod.fst ((assigned_side given up inner _).mpr ⟨has, within, columns, beside⟩)⟩

section Column

theorem endsAt_side (given : l.Assigns i m) {up : Bool} : m.endsAt up x = true ↔ ((m.link up).side (decide (x < l.split i))).1 = none := by
  rw [Mesh.endsAt_iff, split_eq given up]
  split <;> simp [Link.side, *]

variable (words : l.InWords) (given : l.Assigns i m) (low : 0 ≤ x) (high : x < m.localNx)
include words given low high

theorem endsAt_step {up : Bool} : m.endsAt up x = true ↔
    (l.shape.topology.step up (m.globalY (m.edgeRow up)) (decide (x < l.split i))).row = none := by
  rw [localNx_eq words given] at high
  rw [endsAt_side given, globalY_edge words given]
  apply side_none given
  rw [hasSide_iff words]
  split
  next inner => have := of_decide_eq_true inner; omega
  next outer => have := of_decide_eq_false (Bool.eq_false_iff.mpr outer); omega

/-- Whether a column ends does not depend on how far away the separatrix is. -/
theorem endsAt_topology (near : l.shape.topology.cuts ≠ [] ∨
      0 ≤ l.shape.topology.separatrix ∧ l.shape.topology.separatrix < Text.wordEnd) {up : Bool} :
    m.endsAt up x = true ↔ (l.shape.topology.step up (m.globalY (m.edgeRow up))
      (decide (m.globalX x < l.shape.topology.separatrix))).row = none := by
  rw [endsAt_step words given low high]
  rcases near with legs | near
  · have inside := l.edge_range up (row_lt given.1)
    have alike := Topology.ends_alike l.proper legs inside.2 up
    rw [globalY_edge words given]
    cases decide (x < l.split i) <;> cases decide (m.globalX x < l.shape.topology.separatrix) <;> simp [alike]
  · have range := l.left_range i
    have guards := l.guards
    have limit := words.columns
    have word : Index.wrap (l.shape.topology.separatrix - l.left i) = l.shape.topology.separatrix - l.left i :=
      Index.wrap_of_fits (by omega) (by omega)
    rw [decide_eq_decide.mpr (split_eq given up ▸ split_separatrix words given up low high word)]

theorem endsAt_region (tall : 1 ≤ l.shape.myg) {up : Bool} : m.endsAt up x = true ↔
    ∃ r ∈ m.guardRegions, r.kind = .boundary ∧ ∀ y, m.GuardRow up y → r.contains x y = true := by
  have rows : ∀ y, m.GuardRow up y ↔ if up then l.shape.myg + l.height i ≤ y ∧ y < l.height i + 2 * l.shape.myg
      else 0 ≤ y ∧ y < l.shape.myg := by
    intro y
    rw [Mesh.GuardRow, yend_eq words given, localNy_eq words given, (start_eq given).2]
    cases up <;> simp only [Bool.false_eq_true, ↓reduceIte]
    omega
  have here : ∀ side y, (m.regionOn side).contains x y = true ↔ (l.targetBlock i side).Contains x y := fun side y => by
    rw [Region.contains_iff, region_block words given]
  have range := l.left_range i
  have size := bottom_range given.1
  rw [localNx_eq words given] at high
  have vertical : ∀ y, m.GuardRow up y → (l.targetBlock i (.vertical up (decide (x < l.split i)))).Contains x y := by
    intro y row
    rw [rows] at row
    cases up <;> by_cases inner : x < l.split i <;>
      simp only [Bool.false_eq_true, ↓reduceIte] at row <;>
      simp only [inner, decide_true, decide_false, Side.vertical, targetBlock, Block.Contains, Bool.false_eq_true,
        ↓reduceIte] <;> omega
  -- any guard row tells which region holds the end of the column
  obtain ⟨y, row⟩ : ∃ y, m.GuardRow up y := by
    refine ⟨if up then l.shape.myg + l.height i else 0, ?_⟩
    rw [rows]
    cases up <;> simp only [Bool.false_eq_true, ↓reduceIte] <;> omega
  rw [endsAt_side given, ← Mesh.neighbour?_vertical, ← m.regionOn_boundary]
  constructor
  · intro boundary
    exact ⟨_, region_listed words given (vertical y row), boundary, fun y row => (here _ y).mpr (vertical y row)⟩
  · intro known
    obtain ⟨r, member, boundary, inside⟩ := known
    obtain ⟨⟨side, rfl⟩, -⟩ := Mesh.mem_guardRegions.mp member
    rw [target_unique given.1 (vertical y row) ((here side y).mp (inside y row))]
    exact boundary

end Column
end Layout

/-- On every loaded mesh whose cells words can count, all descriptions of the guard cells agree. -/
theorem guards_agree [Scalar α] (source : GridSource α) (options : Options α) {i count : Nat} (inside : i < count)
    {m : Mesh α} {warnings : List String} (loaded : Mesh.load source options ⟨i, count⟩ = .ok (m, warnings))
    (counted : m.Counted) : m.GuardsAgree := by
  obtain ⟨l, rfl, assigned⟩ := Layout.of_load loaded
  have given := assigned i inside _ _ loaded
  have words := Layout.inWords_of_counted given counted
  have shape := Layout.shape_eq given
  obtain ⟨⟨_, read⟩, -⟩ := Mesh.load_reads loaded
  have tall := (Mesh.load_guards loaded).2
  have split (up : Bool) : (m.link up).split = l.split i := Layout.split_eq given up
  have splits := Layout.split_range words i
  have width := Layout.localNx_eq words given
  have guards := l.guards
  have few : m.localNx < Text.wordEnd := by
    have range := l.left_range i
    have wide := words.columns
    omega
  have within (up : Bool) : 0 ≤ (m.link up).split ∧ (m.link up).split ≤ m.localNx := by
    rw [split up, width]
    exact splits
  have ending (up : Bool) := Mesh.boundary_ending (within up).1 (within up).2 few
  exact {
    once := Layout.guard_cells_once words given
    covers := fun x y => (Layout.mem_guard_cells words given).trans (Layout.guard_iff words given)
    walks := fun r member k => by
      obtain ⟨⟨side, rfl⟩, some_⟩ := Mesh.mem_guardRegions.mp member
      obtain ⟨visited, done⟩ := (Region.cells_walk (Layout.region_words words given side)).2 k
      have few := counted.cells _ member
      have size : (m.regionOn side).size = (m.regionOn side).count := by
        refine Index.wrap_of_fits ?_ few
        have := Region.length_columns (r := m.regionOn side)
        rw [Index.wordEnd_eq]
        omega
      exact ⟨visited, size ▸ done⟩
    seams := fun x y => Layout.seam_legs words given
    boundaries := fun _ => rfl
    columns := fun up x low high => by
      rw [Mesh.mem_boundaryWalk (within up).1 (within up).2 few, Mesh.endsAt_iff]
      split
      next inner => simp [low, inner, not_le.mpr inner]
      next outer => simp [high, outer, not_lt.mp outer]
    topology := fun up x low high => by
      rw [shape] at read ⊢
      obtain ⟨bounded, known⟩ := GridShape.read_separatrix read
      exact Layout.endsAt_topology words given low high (known.imp_right fun positive => ⟨positive, bounded⟩)
    regions := fun up x low high => Layout.endsAt_region words given low high (shape ▸ tall)
    lists := fun up w member => by
      simp only [List.mem_cons, List.not_mem_nil, or_false] at member
      rcases member with rfl | rfl | rfl <;> exact Walk.lists_through (ending up _ (by simp))
    halves := fun up => by
      obtain ⟨full, inner, outer⟩ := Mesh.boundary_listed (within up).1 (within up).2 few
      rw [full, inner, outer]
      simp [Walk.listed]
    present := fun up => by
      rw [ne_eq, List.eq_nil_iff_forall_not_mem, not_forall_not]
      simp only [Mesh.mem_boundaryWalk (within up).1 (within up).2 few, Mesh.hasBoundary, Bool.or_eq_true, Bool.and_eq_true,
        Option.isNone_iff_eq_none, decide_eq_true_eq]
      constructor
      · rintro (⟨none, some_⟩ | ⟨none, some_⟩)
        · exact ⟨0, .inl ⟨none, Int.le_refl 0, some_⟩⟩
        · exact ⟨(m.link up).split, .inr ⟨none, Int.le_refl _, some_⟩⟩
      · rintro ⟨x, ⟨none, low, high⟩ | ⟨none, low, high⟩⟩
        · exact .inl ⟨none, by omega⟩
        · exact .inr ⟨none, by omega⟩ }

theorem guards_agree_singleNull : ∃ m, Mesh.load singleNullSource Options.empty ⟨3, 8⟩ = .ok (m, []) ∧ m.GuardsAgree := by
  obtain ⟨m, loaded, room, -⟩ := load_singleNull_block 3 (by decide)
  obtain ⟨l, -, assigned⟩ := Layout.of_load loaded
  exact ⟨m, loaded, guards_agree singleNullSource Options.empty (i := 3) (by decide) loaded
    (Layout.counted_of_room (assigned 3 (by decide) _ _ loaded) room)⟩

/-! A grid of so many rows that words cannot count those of its only block. The upper guard rows get negative numbers,
and so does the size of a guard column. -/

def tallSource : GridSource Whole := ⟨[("nx", ⟨6⟩), ("ny", ⟨9223372036854774784⟩), ("ixseps1", ⟨0⟩)], [], []⟩

def tallOptions : Options Whole := ⟨[("myg", .whole 1024), ("nxpe", .whole 1)]⟩

def tallShape : GridShape Whole :=
  { nx := 6, ny := 9223372036854774784, nz := 1, mxg := 2, myg := 1024, zMin := ⟨0⟩, zMax := ⟨1⟩
    topology := .rectangular 9223372036854774784 false, shiftAngle := none, twistShift := false, periodicX := false
    staggerGrids := false, shiftXderivs := false, incIntShear := false }

theorem read_tall : GridShape.read tallSource tallOptions = .ok (tallShape, []) := by
  have wholes : tallOptions.whole "nz" 1 = 1 ∧ tallOptions.whole "MXG" 2 = 2 ∧ tallOptions.whole "MYG" 2 = 1024 ∧
      tallOptions.whole "jyseps1_1" (-1) = -1 ∧
      tallOptions.whole "jyseps2_2" 9223372036854774783 = 9223372036854774783 := by decide +kernel
  have flags : tallOptions.flag "TwistShift" false = false ∧ tallOptions.flag "periodicX" false = false ∧
      tallOptions.flag "StaggerGrids" false = false ∧ tallOptions.flag "ShiftXderivs" false = false ∧
      tallOptions.flag "IncIntShear" false = false ∧ tallOptions.isSet "periodicY" = false ∧
      tallOptions.isSet "ZMIN" = false ∧ tallOptions.isSet "ZMAX" = false := by decide +kernel
  obtain ⟨nz, mxg, myg, leg1, leg2⟩ := wholes
  obtain ⟨twist, periodicX, stagger, shift, shear, periodicY, zMin, zMax⟩ := flags
  have nx : gridWhole tallSource tallOptions "nx" 0 = .ok 6 := rfl
  have ny : gridWhole tallSource tallOptions "ny" 0 = .ok 9223372036854774784 := rfl
  have missing : tallSource.hasVariable "nz" = false ∧ tallSource.hasVariable "jyseps1_1" = false ∧
      tallSource.hasVariable "jyseps2_2" = false := by decide +kernel
  have topology : GridShape.readTopology tallSource tallOptions 6 9223372036854774784 =
      .ok (.rectangular 9223372036854774784 false) := by
    have column : gridWhole tallSource tallOptions "ixseps1" 6 = .ok 0 := rfl
    simp only [GridShape.readTopology, column]
    simp only [gridWhole, missing, leg1, show (9223372036854774784 : Int) - 1 = 9223372036854774783 from rfl, leg2, periodicY]
    rfl
  simp only [GridShape.read, nx, ny, bind, Except.bind, Except.mapError]
  simp only [gridWhole, missing, nz, mxg, myg, twist, periodicX, stagger, shift, shear, Options.real_unset zMin,
    Options.real_unset zMax, topology]
  rfl

theorem load_tall : ∃ m, Mesh.load tallSource tallOptions ⟨0, 1⟩ = .ok (m, []) ∧
    (∃ r ∈ m.guardRegions, r.restart.isDone = false ∧ r.size < 0) ∧
    ∃ r ∈ m.guardRegions, r.restart.isDone = false ∧ r.restart.y < 0 := by
  have plain : tallOptions.Plain := by
    intro entry member inner same
    simp only [tallOptions, List.mem_cons, List.not_mem_nil, or_false] at member
    rcases member with rfl | rfl <;> cases same
  have asked : tallOptions.isSet "NXPE" = true ∧ tallOptions.whole "NXPE" 0 = 1 ∧
      tallOptions.isSet "paralleltransform" = false := by decide +kernel
  have settled : tallShape.settleSplit tallOptions 1 = .ok 1 := by
    simp only [GridShape.settleSplit, asked.1, asked.2.1]
    rfl
  have transform := transformName_unset asked.2.2
  refine ⟨_, Mesh.load_of_steps read_tall settled rfl rfl rfl rfl rfl rfl (Defaults.read_plain plain) rfl transform,
    ?_, ?_⟩
  · decide +kernel
  · decide +kernel

theorem tall_disagrees : ∃ m, Mesh.load tallSource tallOptions ⟨0, 1⟩ = .ok (m, []) ∧
    (∃ r ∈ m.guardRegions, r.restart.isDone = false ∧ r.size < 0) ∧
    (∃ r ∈ m.guardRegions, r.restart.isDone = false ∧ r.restart.y < 0) ∧ ¬ m.GuardsAgree := by
  obtain ⟨m, loaded, small, low⟩ := load_tall
  refine ⟨m, loaded, small, low, fun agree => ?_⟩
  obtain ⟨r, member, going, negative⟩ := small
  have done := (agree.walks r member 0).2.mpr (by omega)
  rw [Function.iterate_zero, id_eq, going] at done
  cases done

end HaloMesh
