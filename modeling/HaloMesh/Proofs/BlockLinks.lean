import HaloMesh.Proofs.GridLayout

/-! The links between the blocks of a layout. Each rank works out its own links from the rows across the
ends of its block. A step out of a block always enters another one at its facing end, so the links of
two ranks agree with each other. -/

namespace HaloMesh
open Index (Partition)

variable {α : Type}

def Topology.step (t : Topology) (up : Bool) (row : Int) (inner : Bool) : RowStep :=
  if up then t.up row inner else t.down row inner

def Link.side (link : Link) (inner : Bool) : Option Int × Bool :=
  if inner then (link.inner, link.innerTwist) else (link.outer, link.outerTwist)

def Mesh.link (m : Mesh α) (up : Bool) : Link := if up then m.up else m.down

namespace Layout

variable (l : Layout α)

def edge (up : Bool) (k : Nat) : Int := if up then l.rows.bound (k + 1) - 1 else l.rows.bound k

/-- The columns before the split of a rank's links. -/
def split (i : Nat) : Int :=
  max 0 (min (Index.wrap (l.shape.topology.separatrix - l.left i)) (Index.wrap (l.breadth i + 2 * l.shape.mxg)))

def HasSide (i : Nat) (inner : Bool) : Prop :=
  if inner then 0 < l.split i else l.split i < Index.wrap (l.breadth i + 2 * l.shape.mxg)

/-- A step out of one end of block `k` enters block `other`. -/
def Beside (up inner : Bool) (k other : Nat) (twist : Bool) : Prop :=
  k < l.rows.parts ∧ other < l.rows.parts ∧
    l.shape.topology.step up (l.edge up k) inner = ⟨some (l.edge (!up) other), twist⟩

variable {l} {up inner twist : Bool} {k other i j : Nat}

theorem row_sizes (l : Layout α) (k : Nat) : max 1 l.shape.myg ≤ l.rows.bound (k + 1) - l.rows.bound k :=
  Int.le_trans l.tall (Partition.share_le_size l.rows_nonneg k)

theorem column_sizes (l : Layout α) (k : Nat) : max 1 l.shape.mxg ≤ l.columns.bound (k + 1) - l.columns.bound k :=
  Int.le_trans l.wide (Partition.share_le_size l.columns_nonneg k)

theorem edge_within (l : Layout α) (up : Bool) (k : Nat) :
    l.rows.bound k ≤ l.edge up k ∧ l.edge up k < l.rows.bound (k + 1) := by
  have := l.row_sizes k
  cases up <;> simp only [edge, Bool.false_eq_true, ↓reduceIte] <;> omega

theorem bound_range (l : Layout α) {k : Nat} (inside : k ≤ l.rows.parts) :
    0 ≤ l.rows.bound k ∧ l.rows.bound k ≤ l.shape.ny := by
  have low := Partition.bound_mono l.rows_nonneg (Nat.zero_le k)
  have high := Partition.bound_mono l.rows_nonneg inside
  rw [Partition.bound_zero l.rows_nonneg] at low
  rw [Partition.bound_parts, l.allRows] at high
  exact ⟨low, high⟩

theorem edge_range (l : Layout α) (up : Bool) (inside : k < l.rows.parts) :
    0 ≤ l.edge up k ∧ l.edge up k < l.shape.ny := by
  have low := l.bound_range (Nat.le_of_lt inside)
  have high := l.bound_range (show k + 1 ≤ l.rows.parts from inside)
  have within := l.edge_within up k
  omega

theorem edge_injective (same : l.edge up k = l.edge up other) : k = other := by
  have first := l.edge_within up k
  have second := l.edge_within up other
  refine Partition.piece_unique l.rows_nonneg first.1 first.2 ?_ ?_ <;> omega

private theorem starts_block {row : Int} (start : row = 0 ∨ row ∈ l.shape.topology.cuts) :
    ∃ k < l.rows.parts, row = l.rows.bound k := by
  rcases start with rfl | cut
  · exact ⟨0, l.rows.positive, (Partition.bound_zero l.rows_nonneg).symm⟩
  · obtain ⟨k, inside, same⟩ := l.aligned row cut
    exact ⟨k, inside, same.symm⟩

private theorem ends_block {row : Int} (low : 0 ≤ row) (stop : row + 1 = l.shape.ny ∨ row + 1 ∈ l.shape.topology.cuts) :
    ∃ k < l.rows.parts, row = l.rows.bound (k + 1) - 1 := by
  have positive := l.rows.positive
  rcases stop with last | cut
  · refine ⟨l.rows.parts - 1, by omega, ?_⟩
    rw [Nat.sub_add_cancel positive, Partition.bound_parts, l.allRows]
    omega
  · obtain ⟨k, inside, same⟩ := l.aligned _ cut
    have early : k ≠ 0 := by
      intro equal
      subst equal
      rw [Partition.bound_zero l.rows_nonneg] at same
      omega
    refine ⟨k - 1, by omega, ?_⟩
    rw [Nat.sub_add_cancel (by omega)]
    omega

/-- A step out of a block enters a block at its facing end. -/
theorem step_enters (inside : k < l.rows.parts) {row : Int}
    (stepped : l.shape.topology.step up (l.edge up k) inner = ⟨some row, twist⟩) :
    ∃ other, row = l.edge (!up) other ∧ l.Beside up inner k other twist := by
  suffices enters : ∃ other < l.rows.parts, row = l.edge (!up) other by
    obtain ⟨other, within, rfl⟩ := enters
    exact ⟨other, rfl, inside, within, stepped⟩
  have range := l.edge_range up inside
  cases up with
  | true =>
    simp only [Topology.step, ↓reduceIte] at stepped
    simp only [edge, Bool.not_true, Bool.false_eq_true, ↓reduceIte] at range ⊢
    have connects := (Topology.up_iff l.proper range.2).mp stepped
    rcases Topology.connects_jump l.proper range.1 connects with ⟨next, -⟩ | ⟨-, start⟩
    · -- the next row starts the next block, for it still lies in the grid
      have limit := (Topology.connects_range l.proper range.1 range.2 connects).2
      refine ⟨k + 1, ?_, by omega⟩
      by_contra last
      have all : k + 1 = l.rows.parts := by omega
      rw [all, Partition.bound_parts, l.allRows] at next
      omega
    · exact starts_block start
  | false =>
    simp only [Topology.step, Bool.false_eq_true, ↓reduceIte] at stepped
    simp only [edge, Bool.not_false, Bool.false_eq_true, ↓reduceIte] at range stepped ⊢
    obtain ⟨low, connects⟩ := (Topology.down_iff l.proper range.1 range.2).mp stepped
    rcases Topology.connects_jump l.proper low connects with ⟨next, -⟩ | ⟨stop, -⟩
    · have later : k ≠ 0 := by
        intro same
        subst same
        rw [Partition.bound_zero l.rows_nonneg] at next
        omega
      refine ⟨k - 1, by omega, ?_⟩
      rw [Nat.sub_add_cancel (by omega)]
      omega
    · exact ends_block low stop

/-- If a step out of one block enters another, a step back the other way returns. -/
theorem beside_comm : l.Beside up inner k other twist ↔ l.Beside (!up) inner other k twist := by
  have both (inside : k < l.rows.parts) (within : other < l.rows.parts) :
      l.shape.topology.step up (l.edge up k) inner = ⟨some (l.edge (!up) other), twist⟩ ↔
        l.shape.topology.step (!up) (l.edge (!up) other) inner = ⟨some (l.edge up k), twist⟩ := by
    have here := l.edge_range up inside
    have there := l.edge_range (!up) within
    cases up with
    | true => exact Topology.up_eq_iff_down_eq l.proper here.1 here.2 there.1 there.2
    | false => exact (Topology.up_eq_iff_down_eq l.proper there.1 there.2 here.1 here.2).symm
  simp only [Beside, Bool.not_not]
  constructor
  · intro holds
    obtain ⟨inside, within, stepped⟩ := holds
    exact ⟨within, inside, (both inside within).mp stepped⟩
  · intro holds
    obtain ⟨within, inside, stepped⟩ := holds
    exact ⟨inside, within, (both inside within).mpr stepped⟩

theorem beside_unique {twist' : Bool} {another : Nat} (first : l.Beside up inner k other twist)
    (second : l.Beside up inner k another twist') : other = another ∧ twist = twist' := by
  have same := first.2.2.symm.trans second.2.2
  simp only [RowStep.mk.injEq, Option.some.injEq] at same
  exact ⟨edge_injective same.1, same.2⟩

/-! What each rank works out alone. -/

theorem rankAt_eq_iff (l : Layout α) {c k : Nat} (inColumns : c < l.columns.parts) (inRows : k < l.rows.parts) :
    Mesh.rankAt l.columns.parts c k = (j : Int) ↔ j < l.count ∧ l.column j = c ∧ l.row j = k := by
  have place : Mesh.rankAt l.columns.parts c k = ((c + k * l.columns.parts : Nat) : Int) := by
    simp [Mesh.rankAt, Int.add_comm]
  rw [place, Int.natCast_inj]
  constructor
  · intro same
    subst same
    refine ⟨?_, ?_, ?_⟩
    · calc c + k * l.columns.parts < l.columns.parts + k * l.columns.parts := by omega
        _ = (k + 1) * l.columns.parts := by ring
        _ ≤ l.rows.parts * l.columns.parts := Nat.mul_le_mul_right _ inRows
        _ = l.count := Nat.mul_comm _ _
    · rw [column, Nat.add_mul_mod_self_right, Nat.mod_eq_of_lt inColumns]
    · rw [row, Nat.add_mul_div_right _ _ l.columns.positive, Nat.div_eq_of_lt inColumns, Nat.zero_add]
  · intro holds
    obtain ⟨-, rfl, rfl⟩ := holds
    exact Nat.mod_add_div' j l.columns.parts

theorem exists_rank (l : Layout α) {c k : Nat} (inColumns : c < l.columns.parts) (inRows : k < l.rows.parts) :
    ∃ j < l.count, l.column j = c ∧ l.row j = k := by
  obtain ⟨j, same⟩ := Int.eq_ofNat_of_zero_le (show 0 ≤ Mesh.rankAt l.columns.parts c k by
    unfold Mesh.rankAt
    positivity)
  exact ⟨j, (l.rankAt_eq_iff inColumns inRows).mp same⟩

theorem piece_edge (l : Layout α) (up : Bool) (k : Nat) :
    (if up then (l.rows.piece k).start else (l.rows.piece k).stop - 1) = l.edge (!up) k := by
  cases up <;> simp [Partition.piece_eq l.rows_nonneg, edge]

theorem linkTarget_ok {c : Nat} (inside : k < l.rows.parts) {found : Option Int × Bool}
    (made : linkTarget l.shape.topology l.rows l.columns.parts c (l.edge up k) up inner = .ok found) (j : Int) :
    found = (some j, twist) ↔ ∃ other, l.Beside up inner k other twist ∧ Mesh.rankAt l.columns.parts c other = j := by
  have step : (if up then l.shape.topology.up (l.edge up k) inner else l.shape.topology.down (l.edge up k) inner) =
      l.shape.topology.step up (l.edge up k) inner := rfl
  simp only [linkTarget, step] at made
  rcases stepped : l.shape.topology.step up (l.edge up k) inner with ⟨row, twisted⟩
  cases row with
  | none =>
    simp only [stepped, pure, Except.pure, Except.ok.injEq] at made
    simp [← made, Beside, stepped]
  | some row =>
    obtain ⟨block, rfl, beside⟩ := step_enters inside stepped
    simp only [stepped, Outcome.bind_eq_ok, Outcome.guard_eq_ok, pure, Except.pure, Except.ok.injEq] at made
    obtain ⟨owner, owned, facing, rfl⟩ := made
    -- the owner of the facing end of a block is that block
    have same : owner = some block := by
      have range := l.edge_range (!up) beside.2.1
      obtain ⟨m, rfl⟩ := Partition.owner_isSome range.1 (l.allRows ▸ range.2) owned
      obtain ⟨-, low, high⟩ := Partition.owner_sound owned
      have within := l.edge_within (!up) block
      rw [Partition.piece_unique l.rows_nonneg low high within.1 within.2]
    subst same
    simp only [Prod.mk.injEq, Option.some.injEq]
    constructor
    · intro holds
      obtain ⟨rfl, rfl⟩ := holds
      exact ⟨block, beside, rfl⟩
    · intro holds
      obtain ⟨other, another, rfl⟩ := holds
      obtain ⟨rfl, rfl⟩ := beside_unique beside another
      exact ⟨rfl, rfl⟩

/-- Where the guess of an owner names a block, the check for a facing end never fails. -/
theorem linkTarget_total (aimed : l.rows.Aimed) (inside : k < l.rows.parts) (nxpe pex : Int) :
    ∃ found, linkTarget l.shape.topology l.rows nxpe pex (l.edge up k) up inner = .ok found := by
  have step : (if up then l.shape.topology.up (l.edge up k) inner else l.shape.topology.down (l.edge up k) inner) =
      l.shape.topology.step up (l.edge up k) inner := rfl
  simp only [linkTarget, step]
  rcases stepped : l.shape.topology.step up (l.edge up k) inner with ⟨row, twisted⟩
  cases row with
  | none => exact ⟨_, rfl⟩
  | some row =>
    obtain ⟨block, rfl, beside⟩ := step_enters inside stepped
    have range := l.edge_range (!up) beside.2.1
    have within := l.edge_within (!up) block
    have owned := aimed.owner_eq range.1 (l.allRows ▸ range.2) beside.2.1 within.1 within.2
    have facing := l.piece_edge up block
    simp only [owned, bind, Except.bind, facing, ne_eq, not_true_eq_false, ↓reduceIte]
    exact ⟨_, rfl⟩

private theorem range_row (inside : k < l.rows.parts) :
    l.rows.range k = .ok ⟨l.rows.bound k, l.rows.bound (k + 1)⟩ := by
  have within : (k : Int) < l.rows.parts := by exact_mod_cast inside
  rw [Partition.range, if_pos ⟨Int.natCast_nonneg _, within⟩, Int.toNat_natCast, Partition.piece_eq l.rows_nonneg]

/-- The links of a rank lead to the ranks of its column whose blocks lie beside its own. -/
theorem link_side (inside : i < l.count) {link : Link} (made : l.link i up = .ok link) :
    link.split = l.split i ∧ ∀ inner j twist, link.side inner = (some j, twist) ↔ l.HasSide i inner ∧
      ∃ other, l.Beside up inner (l.row i) other twist ∧ Mesh.rankAt l.columns.parts (l.column i) other = j := by
  have ends : (if up then l.rows.bound (l.row i + 1) - 1 else l.rows.bound (l.row i)) = l.edge up (l.row i) := rfl
  simp only [Layout.link, makeLink, range_row (row_lt inside), Outcome.bind_eq_ok, Except.ok.injEq, exists_eq_left', pure,
    Except.pure, ends, decide_eq_true_eq] at made
  obtain ⟨inward, madeInner, outward, madeOuter, rfl⟩ := made
  refine ⟨rfl, fun inner j twist => ?_⟩
  have either {present : Prop} [Decidable present] {found : Option Int × Bool}
      (made : (if present then linkTarget l.shape.topology l.rows l.columns.parts (l.column i)
        (l.edge up (l.row i)) up inner else .ok (none, false)) = .ok found) :
      found = (some j, twist) ↔ present ∧ ∃ other, l.Beside up inner (l.row i) other twist ∧
        Mesh.rankAt l.columns.parts (l.column i) other = j := by
    split at made
    next has => simpa [has] using linkTarget_ok (row_lt inside) made j
    next missing =>
      cases made
      simp [missing]
  cases inner with
  | true =>
    simp only [Link.side, HasSide, ↓reduceIte]
    exact either madeInner
  | false =>
    simp only [Link.side, HasSide, Bool.false_eq_true, ↓reduceIte]
    exact either madeOuter

theorem makeLink_total (aimed : l.rows.Aimed) (inside : k < l.rows.parts) (nxpe pex offsetX localNx : Int) (up : Bool) :
    ∃ link, makeLink l.shape.topology l.rows nxpe pex k offsetX localNx up = .ok link := by
  have ends : (if up then l.rows.bound (k + 1) - 1 else l.rows.bound k) = l.edge up k := rfl
  have either (inner : Bool) (present : Prop) [Decidable present] : ∃ found,
      (if present then linkTarget l.shape.topology l.rows nxpe pex (l.edge up k) up inner else .ok (none, false)) =
        .ok found := by
    split
    · exact linkTarget_total aimed inside nxpe pex
    · exact ⟨_, rfl⟩
  simp only [makeLink, range_row inside, Outcome.bind_eq_ok, Except.ok.injEq, exists_eq_left', pure, Except.pure,
    ends, decide_eq_true_eq]
  generalize max 0 (min (Index.wrap (l.shape.topology.separatrix - offsetX)) localNx) = split
  obtain ⟨inward, madeInner⟩ := either true (0 < split)
  obtain ⟨outward, madeOuter⟩ := either false (split < localNx)
  exact ⟨_, inward, madeInner, outward, madeOuter, rfl⟩

/-! The ranks in and out along x. -/

/-- The block of rank `j` lies one further out in x than that of rank `i`. -/
def Beyond (l : Layout α) (i j : Nat) : Prop :=
  l.row i = l.row j ∧ ((l.column i + 1 < l.columns.parts ∧ l.column j = l.column i + 1) ∨
    (l.shape.periodicX = true ∧ l.column i + 1 = l.columns.parts ∧ l.column j = 0))

section Neighbours

variable {source : GridSource α} {options : Options α} {above below : Link} {defaults : Defaults}

theorem xout_iff (inside : i < l.count) : (l.block source options i above below defaults).xout = some (j : Int) ↔
    j < l.count ∧ l.Beyond i j := by
  have first := l.column_lt i
  have place : ((l.column i : Int) + 1).tmod l.columns.parts = ((l.column i + 1) % l.columns.parts : Nat) := rfl
  simp only [block, place, Option.ite_none_right_eq_some, Option.some.injEq]
  rw [rankAt_eq_iff l (Nat.mod_lt _ l.columns.positive) (row_lt inside), Beyond]
  by_cases last : l.column i + 1 = l.columns.parts
  · have wrapped : (l.column i + 1) % l.columns.parts = 0 := by rw [last, Nat.mod_self]
    rw [wrapped]
    constructor
    · intro holds
      obtain ⟨present, within, zero, same⟩ := holds
      exact ⟨within, same.symm, .inr ⟨present.resolve_left (by omega), last, zero⟩⟩
    · intro holds
      obtain ⟨within, same, ⟨early, -⟩ | ⟨periodic, -, zero⟩⟩ := holds
      · omega
      · exact ⟨.inr periodic, within, zero, same.symm⟩
  · rw [Nat.mod_eq_of_lt (by omega)]
    constructor
    · intro holds
      obtain ⟨-, within, next, same⟩ := holds
      exact ⟨within, same.symm, .inl ⟨by omega, next⟩⟩
    · intro holds
      obtain ⟨within, same, ⟨-, next⟩ | ⟨-, late, -⟩⟩ := holds
      · exact ⟨.inl (by omega), within, next, same.symm⟩
      · omega

theorem xin_iff (inside : j < l.count) : (l.block source options j above below defaults).xin = some (i : Int) ↔
    i < l.count ∧ l.Beyond i j := by
  have second := l.column_lt j
  have place : ((l.column j : Int) + l.columns.parts - 1).tmod l.columns.parts =
      ((l.column j + l.columns.parts - 1) % l.columns.parts : Nat) := by
    rw [Int.ofNat_tmod, show ((l.column j + l.columns.parts - 1 : Nat) : Int) = l.column j + l.columns.parts - 1 by omega]
  simp only [block, place, Option.ite_none_right_eq_some, Option.some.injEq]
  rw [rankAt_eq_iff l (Nat.mod_lt _ l.columns.positive) (row_lt inside), Beyond]
  by_cases first : l.column j = 0
  · have wrapped : (l.column j + l.columns.parts - 1) % l.columns.parts = l.columns.parts - 1 := by
      rw [first, Nat.zero_add, Nat.mod_eq_of_lt (by omega)]
    rw [wrapped]
    constructor
    · intro holds
      obtain ⟨present, within, last, same⟩ := holds
      exact ⟨within, same, .inr ⟨present.resolve_left (by omega), by omega, first⟩⟩
    · intro holds
      obtain ⟨within, same, ⟨-, next⟩ | ⟨periodic, last, -⟩⟩ := holds
      · omega
      · exact ⟨.inr periodic, within, by omega, same⟩
  · rw [show l.column j + l.columns.parts - 1 = l.column j - 1 + l.columns.parts by omega, Nat.add_mod_right,
      Nat.mod_eq_of_lt (by omega)]
    constructor
    · intro holds
      obtain ⟨-, within, before, same⟩ := holds
      exact ⟨within, same, .inl ⟨by omega, by omega⟩⟩
    · intro holds
      obtain ⟨within, same, ⟨-, next⟩ | ⟨-, -, zero⟩⟩ := holds
      · exact ⟨.inl (by omega), within, by omega, same⟩
      · exact absurd zero first

end Neighbours

end Layout
end HaloMesh
