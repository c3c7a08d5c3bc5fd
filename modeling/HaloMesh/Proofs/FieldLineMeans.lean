import Mathlib.Data.Int.ConditionallyCompleteOrder
import Mathlib.Data.Int.Interval
import HaloMesh.Proofs.FieldLineSums
import HaloMesh.Proofs.FluxConservation
import HaloMesh.Proofs.LineMeans

/-! Averages along field lines on all ranks. Each group of ranks adds up what its members have in the interior rows of its
field lines, and the number of these rows. Between them the members hold every row of such a line once, so all of them
get the mean of the line. -/

namespace HaloMesh
open Transport

namespace Layout
open Mesh (Grouped)

section Shares

variable {α : Type} [Scalar α] {l : Layout α} {meshes : Nat → Mesh α} {f : Nat → Field α} {i j : Nat} {ranks : List Int}

/-- The columns of a block whose field lines some ranks hold between them. -/
def columnsOf (l : Layout α) (meshes : Nat → Mesh α) (i : Nat) (ranks : List Int) : List Int :=
  (Index.span 0 ((meshes i).localNx - 1)).filter fun x => l.ranksOf meshes i x = ranks

/-- What a member of a group of ranks gives to its sum. -/
def share (l : Layout α) (meshes : Nat → Mesh α) (f : Nat → Field α) (ranks : List Int) (r : Int) : Array α :=
  (meshes r.toNat).lineValues (f r.toNat) (l.columnsOf meshes r.toNat ranks)

variable (given : ∀ i < l.count, l.Assigns i (meshes i)) (holds : ∀ i < l.count, (meshes i).Holds (f i))
  (inside : i < l.count)
include given inside

omit [Scalar α] in
theorem columnsOf_eq (within : j < l.count) (column : l.column j = l.column i) (first : (i : Int) ∈ ranks)
    (second : (j : Int) ∈ ranks) : l.columnsOf meshes j ranks = l.columnsOf meshes i ranks := by
  rw [columnsOf, columnsOf, (same_columns given inside within column).1]
  exact List.filter_congr fun x _ => decide_eq_decide.mpr (ranksOf_iff given inside within first second)

omit [Scalar α] inside in
include holds in
theorem depth_eq {k k' : Nat} (first : k < l.count) (second : k' < l.count) : (f k).nz = (f k').nz := by
  have here := (holds k first).sizes.2.2
  have there := (holds k' second).sizes.2.2
  rw [localNz_eq (given k first)] at here
  rw [localNz_eq (given k' second)] at there
  omega

include holds in
/-- A rank enters its groups with the share that it has in them. -/
theorem attends {groups : List Mesh.ColumnGroup}
    (grouped : Grouped ⟨i, l.count⟩ (l.ranksOf meshes i) (Index.span 0 ((meshes i).localNx - 1)) groups)
    {g : Mesh.ColumnGroup} (member : g ∈ groups) :
    RankM.Attends (meshes i) (f i) ⟨i, l.count⟩ (l.share meshes f) g := by
  obtain ⟨x, -, ranks⟩ := grouped.some_ g member
  have chosen : g.columns = l.columnsOf meshes i g.communicator.ranks := grouped.chosen g member
  have own : (i : Int) ∈ g.communicator.ranks := ranks ▸ l.self_mem_lineRanks inside _
  have members (r : Int) (among : r ∈ g.communicator.ranks) : ∃ j < l.count, r = (j : Int) ∧ l.column j = l.column i := by
    rw [← ranks] at among
    obtain ⟨j, within, same, column, -⟩ := mem_lineRanks.mp among
    exact ⟨j, within, same, column⟩
  refine ⟨grouped.endpoint g member, fun r among => ?_, ?_, fun r among => ?_, fun x among => ?_, ?_⟩
  · obtain ⟨j, within, rfl, -⟩ := members r among
    simp [Endpoint.reaches, within]
  · rw [share, chosen, Int.toNat_natCast]
  · obtain ⟨j, within, rfl, column⟩ := members r among
    rw [share, share, Mesh.size_lineValues, Mesh.size_lineValues, Int.toNat_natCast, Int.toNat_natCast,
      columnsOf_eq given inside within column own among, depth_eq given holds within inside]
  · rw [chosen] at among
    have range := Index.mem_span.mp (List.mem_filter.mp among).1
    omega
  · rw [chosen]
    exact (Block.nodup_span _ _).filter _

omit [Scalar α] given inside in
/-- No column is in two groups. -/
theorem columns_apart {groups : List Mesh.ColumnGroup}
    (grouped : Grouped ⟨i, l.count⟩ (l.ranksOf meshes i) (Index.span 0 ((meshes i).localNx - 1)) groups) :
    groups.Pairwise fun g h => ∀ x ∈ g.columns, x ∉ h.columns := by
  refine (List.pairwise_map.mp grouped.distinct).imp_of_mem fun {g h} first second other x here there => other ?_
  rw [grouped.chosen g first] at here
  rw [grouped.chosen h second] at there
  exact (of_decide_eq_true (List.mem_filter.mp here).2).symm.trans (of_decide_eq_true (List.mem_filter.mp there).2)

omit [Scalar α] in
/-- The members of the group of a field line have the same columns in it, and values for the same points. -/
theorem members_alike (holds : ∀ i < l.count, (meshes i).Holds (f i)) {x r : Int} (member : r ∈ l.ranksOf meshes i x) :
    l.columnsOf meshes r.toNat (l.ranksOf meshes i x) = l.columnsOf meshes i (l.ranksOf meshes i x) ∧
      (f r.toNat).nz = (f i).nz := by
  obtain ⟨j, within, rfl, column, -⟩ := mem_lineRanks.mp member
  rw [Int.toNat_natCast]
  exact ⟨columnsOf_eq given inside within column (l.self_mem_lineRanks inside _) member, depth_eq given holds within inside⟩

include holds in
/-- In every place the sum of a group is that of what its members have there. -/
theorem groupSums_eq {x : Int} {part : Int → α} {place : Nat} (within : place < (l.share meshes f (l.ranksOf meshes i x) i).size)
    (parts : ∀ r ∈ l.ranksOf meshes i x, (l.share meshes f (l.ranksOf meshes i x) r)[place]? = some (part r)) :
    (RankM.groupSums (l.share meshes f) i (l.ranksOf meshes i x))[place]? =
      some ((l.ranksOf meshes i x).foldl (fun s r => s + part r) 0) ∧
    (RankM.groupSums (l.share meshes f) i (l.ranksOf meshes i x)).size =
      (l.columnsOf meshes i (l.ranksOf meshes i x)).length * (f i).nz + 1 := by
  have size (r : Int) (member : r ∈ l.ranksOf meshes i x) : (l.share meshes f (l.ranksOf meshes i x) r).size =
      (l.columnsOf meshes i (l.ranksOf meshes i x)).length * (f i).nz + 1 := by
    obtain ⟨columns, deep⟩ := members_alike given inside holds member
    rw [share, Mesh.size_lineValues, columns, deep]
  have own := size i (l.self_mem_lineRanks inside _)
  have sizes : ∀ v ∈ (l.ranksOf meshes i x).map (l.share meshes f (l.ranksOf meshes i x)),
      v.size = (l.share meshes f (l.ranksOf meshes i x) i).size := by
    intro v listed
    obtain ⟨r, member, rfl⟩ := List.mem_map.mp listed
    rw [size r member, own]
  refine ⟨?_, by rw [RankM.groupSums, Communicator.orderedSum_size sizes, own]⟩
  rw [RankM.groupSums, Communicator.getElem?_orderedSum sizes within, List.foldl_map]
  exact congrArg some (List.foldl_ext _ _ 0 fun s r member => by rw [parts r member, Option.getD_some])

include holds in
/-- The mean in one column is taken from the sums of all members there. -/
theorem groupMean_eq {x z : Int} {k : Nat} (found : (l.columnsOf meshes i (l.ranksOf meshes i x))[k]? = some x)
    (low : 0 ≤ z) (high : z < (f i).nz) :
    RankM.groupMean (l.share meshes f) i (l.ranksOf meshes i x) (k * (f i).nz + z.toNat) =
      (l.ranksOf meshes i x).foldl (fun s r => s + (meshes r.toNat).columnSum (f r.toNat) x z) 0 /
        (l.ranksOf meshes i x).foldl
          (fun s r => s + Scalar.ofInt ((meshes r.toNat).yend - (meshes r.toNat).ystart + 1)) 0 := by
  have column (r : Int) (member : r ∈ l.ranksOf meshes i x) :
      (l.share meshes f (l.ranksOf meshes i x) r)[k * (f i).nz + z.toNat]? =
        some ((meshes r.toNat).columnSum (f r.toNat) x z) := by
    obtain ⟨columns, deep⟩ := members_alike given inside holds member
    have value := Mesh.lineValues_column (m := meshes r.toNat) (f := f r.toNat) found (show z.toNat < (f r.toNat).nz by omega)
    rwa [deep, Int.toNat_of_nonneg low, ← columns] at value
  have rows (r : Int) (member : r ∈ l.ranksOf meshes i x) :
      (l.share meshes f (l.ranksOf meshes i x) r)[(l.columnsOf meshes i (l.ranksOf meshes i x)).length * (f i).nz]? =
        some (Scalar.ofInt ((meshes r.toNat).yend - (meshes r.toNat).ystart + 1)) := by
    obtain ⟨columns, deep⟩ := members_alike given inside holds member
    rw [← columns, ← deep]
    exact Mesh.lineValues_rows
  have own := l.self_mem_lineRanks (α := α) inside (decide ((meshes i).globalX x < l.shape.topology.separatrix))
  obtain ⟨sum, -⟩ := groupSums_eq given holds inside (Array.getElem?_eq_some_iff.mp (column i own)).1 column
  obtain ⟨count, size⟩ := groupSums_eq given holds inside (Array.getElem?_eq_some_iff.mp (rows i own)).1 rows
  rw [RankM.groupMean, size, Nat.add_sub_cancel, sum, count, Option.getD_some, Option.getD_some]

end Shares
/-! Over real numbers the sums of the ranks are one sum over the rows of the line. -/

section Rows

variable {α M : Type} [AddCommMonoid M] {l : Layout α} {meshes : Nat → Mesh α} {i : Nat}

/-- The ranks of a field line have all of its rows and no others. -/
theorem rowSum_lineRanks (words : l.InWords) (given : ∀ i < l.count, l.Assigns i (meshes i)) (inside : i < l.count)
    (value : Nat → Int → M) (x : Int) :
    rowSum l.count meshes (meshes i).pex value ((meshes i).LineRow x) =
      ((l.ranksOf meshes i x).map fun r =>
        ∑ y ∈ Finset.Icc (meshes r.toNat).ystart (meshes r.toNat).yend, value r.toNat y).sum := by
  classical
  rw [ranksOf, lineRanks, List.map_map, ← List.sum_toFinset _ (List.nodup_range.filter _), List.toFinset_filter,
    List.toFinset_range, rowSum, Finset.sum_filter, Finset.sum_filter]
  refine Finset.sum_congr rfl fun j member => ?_
  have within := Finset.mem_range.mp member
  have tall := bottom_range inside
  have rows (y : Int) (own : y ∈ Finset.Icc (meshes j).ystart (meshes j).yend) :
      (meshes i).LineRow x ((meshes j).globalY y) ↔
        l.line j (decide ((meshes i).globalX x < l.shape.topology.separatrix)) =
          l.line i (decide ((meshes i).globalX x < l.shape.topology.separatrix)) := by
    have own := Finset.mem_Icc.mp own
    rw [lineRow_eq words given inside, ← track_globalY words given within own]
    exact Topology.onLine_iff l.proper (by omega) (globalY_range words given within own)
  have column : (meshes j).pex = (meshes i).pex ↔ l.column j = l.column i := by
    rw [pex_eq (given j within), pex_eq (given i inside), Int.natCast_inj]
  rw [Finset.sum_congr rfl fun y own => if_congr (rows y own) rfl rfl]
  simp only [column, decide_eq_true_eq, Function.comp_apply, Int.toNat_natCast, ite_and]
  split
  · split <;> simp
  · rfl

end Rows

end Layout

namespace Exact

theorem columnSum_eq (m : Mesh ℝ) (f : Field ℝ) (x z : Int) :
    m.columnSum f x z = ∑ y ∈ Finset.Icc m.ystart m.yend, f.value x y z := by
  have rows : Finset.Icc m.ystart m.yend = (Index.span m.ystart m.yend).toFinset := by
    ext y
    simp
  rw [rows, List.sum_toFinset _ (Block.nodup_span _ _)]
  have added := foldl_add (fun y => f.value x y z) (Index.span m.ystart m.yend) 0
  rw [zero_add, ← zero_eq] at added
  exact added

end Exact

section Means
open Mesh (Grouped)

variable {l : Layout ℝ} {meshes : Nat → Mesh ℝ} {f : Nat → Field ℝ} {i : Nat} (words : l.InWords)
  (given : ∀ i < l.count, l.Assigns i (meshes i)) (inside : i < l.count)
include words given inside

/-- The rows that the ranks of a field line have are as many as the line is long. -/
theorem Layout.rows_lineRanks (x : Int) :
    ((l.ranksOf meshes i x).map fun r => (((meshes r.toNat).yend - (meshes r.toNat).ystart + 1 : Int) : ℝ)).sum =
      (meshes i).lineLength x := by
  have tall := bottom_range inside
  have positive := line_length_pos inside (decide ((meshes i).globalX x < l.shape.topology.separatrix))
  have counted := rowSum_lineRanks words given inside (fun _ _ => (1 : ℝ)) x
  rw [lineRow_eq words given inside, pex_eq (given i inside), rowSum_track words given (l.column_lt i) (by omega) (by omega)
    (fun _ => 1) fun _ _ _ _ _ _ _ _ _ _ => rfl, Finset.sum_const, Finset.card_range, nsmul_one] at counted
  have whole : ((meshes i).lineLength x : ℝ) = (((meshes i).lineLength x).toNat : ℝ) := by
    rw [← Int.cast_natCast, Int.toNat_of_nonneg (by rw [lineLength_eq words given inside]; omega)]
  rw [whole, lineLength_eq words given inside, line, counted]
  refine congrArg List.sum (List.map_congr_left fun r member => ?_)
  obtain ⟨j, within, rfl, -⟩ := mem_lineRanks.mp member
  have top := yend_eq words (given j within)
  have own := (start_eq (given j within)).2
  have tall := bottom_range within
  rw [Int.toNat_natCast, Finset.sum_const, Int.card_Icc, nsmul_one, ← Int.cast_natCast (R := ℝ),
    Int.toNat_of_nonneg (by omega), sub_add_eq_add_sub]

/-- The mean of a group in one of its columns is the mean along the field line there. -/
theorem Layout.groupMean_lineMean (holds : ∀ i < l.count, (meshes i).Holds (f i)) {x z : Int} {k : Nat}
    (found : (l.columnsOf meshes i (l.ranksOf meshes i x))[k]? = some x) (low : 0 ≤ z) (high : z < (f i).nz) :
    RankM.groupMean (l.share meshes f) i (l.ranksOf meshes i x) (k * (f i).nz + z.toNat) =
      rowSum l.count meshes (meshes i).pex (fun j y => (f j).value x y z) ((meshes i).LineRow x) /
        (meshes i).lineLength x := by
  rw [groupMean_eq given holds inside found low high, rowSum_lineRanks words given inside,
    ← rows_lineRanks words given inside]
  have sums := Exact.foldl_add (fun r => (meshes r.toNat).columnSum (f r.toNat) x z) (l.ranksOf meshes i x) 0
  have rows := Exact.foldl_add (fun r => (((meshes r.toNat).yend - (meshes r.toNat).ystart + 1 : Int) : ℝ))
    (l.ranksOf meshes i x) 0
  simp only [zero_add, Exact.columnSum_eq] at sums rows
  simp only [Exact.zero_eq, Exact.columnSum_eq]
  exact congrArg₂ (· / ·) sums rows

/-- What one rank does for an average: it goes through its groups, and gets the mean of the field line in every point. -/
theorem Layout.averageY_path (holds : ∀ i < l.count, (meshes i).Holds (f i)) {r : Rank ℝ} (own : r.mesh = meshes i)
    {groups : List Mesh.ColumnGroup} (computed : (meshes i).columnGroups = .ok groups)
    (grouped : Grouped ⟨i, l.count⟩ (l.ranksOf meshes i) (Index.span 0 ((meshes i).localNx - 1)) groups) :
    ∃ d, Program.Path ((RankM.averageY (f i)).run.run r)
        (Meeting.script Mesh.averageTag (l.share meshes f) i [] (groups.map fun g => g.communicator.ranks))
        (.finished (.ok d, r)) ∧
      Field.Alike (f i) d ∧ ∀ x y z, (f i).HasPoint x y z →
        d.value x y z = rowSum l.count meshes (meshes i).pex (fun j y => (f j).value x y z) ((meshes i).LineRow x) /
          (meshes i).lineLength x := by
  obtain ⟨d, path, alike, values⟩ := RankM.averageY_path own (holds i inside) computed
    (fun g member => attends given holds inside grouped member) (columns_apart grouped)
  refine ⟨d, path, alike, fun x y z has => ?_⟩
  have columns := (holds i inside).sizes.1
  obtain ⟨⟨wide, -⟩, low, high⟩ := id has
  have among : x ∈ Index.span 0 ((meshes i).localNx - 1) := Index.mem_span.mpr (by omega)
  obtain ⟨g, member, ranks⟩ := grouped.all x among
  have chosen : g.columns = l.columnsOf meshes i (l.ranksOf meshes i x) := ranks ▸ grouped.chosen g member
  have own : x ∈ l.columnsOf meshes i (l.ranksOf meshes i x) := List.mem_filter.mpr ⟨among, decide_eq_true rfl⟩
  obtain ⟨k, found⟩ := List.mem_iff_getElem?.mp own
  rw [values x y z has g member k (chosen ▸ found), ranks]
  exact groupMean_lineMean words given inside holds found low high

/-- Along a line of sampled data the ranks have the data of all its rows. -/
theorem Layout.rowSum_samples (holds : ∀ i < l.count, (meshes i).Holds (f i)) {data : Int → Int → Int → ℝ}
    (sampled : ∀ i < l.count, (meshes i).Samples data (f i)) {x z : Int}
    (column : (meshes i).xstart ≤ x ∧ x ≤ (meshes i).xend) (low : 0 ≤ z) (high : z < (meshes i).localNz) :
    rowSum l.count meshes (meshes i).pex (fun j y => (f j).value x y z) ((meshes i).LineRow x) =
      ∑ k ∈ Finset.range ((meshes i).lineLength x).toNat, data ((meshes i).globalX x)
        ((l.line i (decide ((meshes i).globalX x < l.shape.topology.separatrix))).row k) z := by
  have tall := bottom_range inside
  rw [lineRow_eq words given inside, pex_eq (given i inside), lineLength_eq words given inside, line]
  refine rowSum_track words given (l.column_lt i) (by omega) (by omega) (fun k => data ((meshes i).globalX x)
    ((l.line i (decide ((meshes i).globalX x < l.shape.topology.separatrix))).row k) z) fun j within own y first last k _ _ row => ?_
  have beside : l.column j = l.column i := Int.natCast_inj.mp ((pex_eq (given j within)).symm.trans own)
  have interior : (meshes j).isInterior x y = true := by
    have right := xend_eq words (given i inside)
    have left := (start_eq (given i inside)).1
    have start := (start_eq (given j within)).2
    have top := yend_eq words (given j within)
    have breadth : l.breadth j = l.breadth i := by simp only [Layout.breadth, Layout.left, beside]
    exact (isInterior_iff words (given j within)).mpr ⟨by omega, by omega⟩
  have deep : (meshes j).localNz = (meshes i).localNz := (localNz_eq (given j within)).trans (localNz_eq (given i inside)).symm
  rw [line, row, ← (same_columns given inside within beside).2 x]
  exact sampled j within x y z ((holds j within).interior_point interior low (deep ▸ high)).1
    (interior_unseamed words (given j within) interior)

end Means

/-- What a rank finds out about the field line through one of its columns. -/
structure Mesh.FindsLine {α : Type} (count : Nat) (meshes : Nat → Mesh α) (i : Nat) (x : Int) (members : List Int) : Prop where
  /-- The walks along the line end: no row is met in more steps than there are rows. -/
  ends : ∀ up steps, (meshes i).shape.ny.toNat ≤ steps →
    (meshes i).lineWalk x up steps = (meshes i).lineWalk x up (meshes i).shape.ny.toNat
  some_ : 0 < (meshes i).lineLength x
  found : (meshes i).yRanks x = .ok members
  ascending : members.Pairwise (· < ·)
  /-- The members are the ranks that have the column and interior rows of the line. -/
  owners : ∀ r, r ∈ members ↔ ∃ j < count, r = (j : Int) ∧ (meshes j).pex = (meshes i).pex ∧
    ∃ y, (meshes j).ystart ≤ y ∧ y ≤ (meshes j).yend ∧ (meshes i).LineRow x ((meshes j).globalY y)
  /-- All members find the same. -/
  shared : ∀ j : Nat, (j : Int) ∈ members → (meshes j).globalX x = (meshes i).globalX x ∧ (meshes j).yRanks x = .ok members

theorem Layout.findsLine {α : Type} {l : Layout α} {meshes : Nat → Mesh α} {i : Nat} (words : l.InWords)
    (given : ∀ i < l.count, l.Assigns i (meshes i)) (aimed : l.rows.Aimed) (number : (l.count : Int) ≤ Text.wordEnd)
    (inside : i < l.count) (x : Int) : Mesh.FindsLine l.count meshes i x (l.ranksOf meshes i x) := by
  have shape := shape_eq (given i inside)
  have start := globalY_start words given inside
  have tall := bottom_range inside
  refine ⟨fun up steps more => ?_, ?_, yRanks_eq words given inside aimed number x, l.pairwise_lineRanks i _, fun r => ?_,
    fun j member => ?_⟩
  · exact Mesh.lineWalk_ends (by rw [shape]; exact l.proper) (by rw [shape]) (by omega) (by omega) x up more
  · rw [lineLength_eq words given inside]
    exact line_length_pos inside _
  · rw [lineRow_eq words given inside, ← start]
    exact mem_lineRanks_iff words given inside
  · obtain ⟨within, column, -⟩ := natCast_mem_lineRanks.mp member
    refine ⟨(same_columns given inside within column).2 x, ?_⟩
    rw [← ranksOf_eq given inside member]
    exact yRanks_eq words given within aimed number x

noncomputable def loftyOptions : Options ℝ :=
  ⟨[("nx", .whole 3), ("ny", .whole 9223372036854775806), ("mxg", .whole 1), ("myg", .whole 1), ("nxpe", .whole 1),
    ("periodicy", .flag false)]⟩

noncomputable def loftyShape : GridShape ℝ :=
  { nx := 3, ny := 9223372036854775806, nz := 1, mxg := 1, myg := 1, zMin := Scalar.ofInt 0, zMax := Scalar.ofInt 1
    topology := .rectangular 9223372036854775806 false, shiftAngle := none, twistShift := false, periodicX := false
    staggerGrids := false, shiftXderivs := false, incIntShear := false }

theorem asked_lofty : GridShape.Asked loftyOptions loftyShape where
  sizes := by decide +kernel
  guards := by decide +kernel
  room := by decide +kernel
  range := ⟨Options.real_unset (by decide +kernel) _, Options.real_unset (by decide +kernel) _⟩
  extent := Exact.default_range
  separatrix := by decide +kernel
  legs := by decide +kernel
  topology := by decide +kernel
  flags := by decide +kernel
  straight := ⟨rfl, rfl⟩

theorem read_lofty : GridShape.read GridSource.empty loftyOptions = .ok (loftyShape, []) := asked_lofty.read fun _ _ => rfl

theorem plain_lofty : loftyOptions.Plain := by
  intro entry member inner same
  simp only [loftyOptions, List.mem_cons, List.not_mem_nil, or_false] at member
  rcases member with rfl | rfl | rfl | rfl | rfl | rfl <;> cases same

theorem load_lofty (i : Nat) (inside : i < 2) :
    ∃ m, Mesh.load GridSource.empty loftyOptions ⟨i, 2⟩ = .ok (m, []) ∧ m.localNx = 3 ∧
      (i = 1 → ∀ x, 0 ≤ x → x < 3 → m.yRanks x = Outcome.outOfRange) := by
  have asked : loftyOptions.isSet "NXPE" = true ∧ loftyOptions.whole "NXPE" 0 = 1 ∧
      loftyOptions.isSet "paralleltransform" = false := by decide +kernel
  have settled : loftyShape.settleSplit loftyOptions 2 = .ok 1 := by
    simp only [GridShape.settleSplit, asked.1, asked.2.1]
    rfl
  have transform := transformName_unset asked.2.2
  interval_cases i
  · refine ⟨_, Mesh.load_of_steps read_lofty settled rfl rfl rfl rfl rfl rfl (Defaults.read_plain plain_lofty) rfl transform,
      rfl, fun upper => ?_⟩
    cases upper
  · refine ⟨_, Mesh.load_of_steps read_lofty settled rfl rfl rfl rfl rfl rfl (Defaults.read_plain plain_lofty) rfl transform,
      rfl, fun _ x low high => ?_⟩
    interval_cases x <;> decide +kernel

end HaloMesh
