import Mathlib.Algebra.BigOperators.Intervals
import Mathlib.Data.Int.ConditionallyCompleteOrder
import Mathlib.Data.Int.Interval
import HaloMesh.Proofs.FieldLineRows

/-! Sums over the points of all ranks that lie in some places of the grid. Every place is counted once, on the rank that
has it, however the grid is split. -/

namespace HaloMesh

/-- A sum over cells is one over places, if every place has one cell. -/
theorem sum_places {ι β M : Type} [AddCommMonoid M] {cells : Finset ι} (site : ι → β) {on : β → Prop} [DecidablePred on]
    {value : ι → M} {n : Nat} (place : Nat → β) {total : Nat → M} (single : Set.InjOn site cells)
    (distinct : ∀ a < n, ∀ b < n, place a = place b → a = b) (owned : ∀ k < n, ∃ c ∈ cells, site c = place k)
    (reached : ∀ c ∈ cells, on (site c) ↔ ∃ k < n, place k = site c)
    (values : ∀ c ∈ cells, ∀ k < n, place k = site c → value c = total k) :
    (∑ c ∈ cells, if on (site c) then value c else 0) = ∑ k ∈ Finset.range n, total k := by
  have owner (k : Nat) (inside : k ∈ Finset.range n) := (owned k (Finset.mem_range.mp inside)).choose_spec
  rw [← Finset.sum_filter]
  symm
  refine Finset.sum_bij (fun k inside => (owned k (Finset.mem_range.mp inside)).choose) (fun k inside => ?_)
    (fun a insideA b insideB same => ?_) (fun c member => ?_) fun k inside => ?_
  · obtain ⟨member, same⟩ := owner k inside
    exact Finset.mem_filter.mpr ⟨member, (reached _ member).mpr ⟨k, Finset.mem_range.mp inside, same.symm⟩⟩
  · have first := (owner a insideA).2
    rw [same, (owner b insideB).2] at first
    exact distinct a (Finset.mem_range.mp insideA) b (Finset.mem_range.mp insideB) first.symm
  · obtain ⟨member, onPlace⟩ := Finset.mem_filter.mp member
    obtain ⟨k, inside, same⟩ := (reached c member).mp onPlace
    obtain ⟨member', same'⟩ := owner k (Finset.mem_range.mpr inside)
    exact ⟨k, Finset.mem_range.mpr inside, single member' member (same'.trans same)⟩
  · obtain ⟨member, same⟩ := owner k inside
    exact (values _ member k (Finset.mem_range.mp inside) same.symm).symm

section Sums

variable {α M : Type} [AddCommMonoid M] {l : Layout α} {meshes : Nat → Mesh α}

open Classical in
/-- The sum over all interior points of the ranks whose column and row of the grid have a property. -/
noncomputable def interiorSum (count : Nat) (meshes : Nat → Mesh α) (value : Nat → Int → Int → M)
    (on : Int × Int → Prop) : M :=
  ∑ i ∈ Finset.range count,
    ∑ p ∈ Finset.Icc (meshes i).xstart (meshes i).xend ×ˢ Finset.Icc (meshes i).ystart (meshes i).yend,
      if on ((meshes i).globalX p.1, (meshes i).globalY p.2) then value i p.1 p.2 else 0

open Classical in
/-- The sum over the interior rows of the ranks in one column of the processor grid whose row of the grid has a
property. -/
noncomputable def rowSum (count : Nat) (meshes : Nat → Mesh α) (pex : Int) (value : Nat → Int → M) (on : Int → Prop) : M :=
  ∑ i ∈ Finset.range count with (meshes i).pex = pex,
    ∑ y ∈ Finset.Icc (meshes i).ystart (meshes i).yend, if on ((meshes i).globalY y) then value i y else 0

variable (words : l.InWords) (given : ∀ i < l.count, l.Assigns i (meshes i))
include words given

/-- Every row of the grid is an interior row of one rank in each column of the processor grid. -/
theorem Layout.rows_bijOn {pex : Nat} (known : pex < l.columns.parts) :
    Set.BijOn (fun cell : Nat × Int => (meshes cell.1).globalY cell.2)
      {cell | (cell.1 < l.count ∧ (meshes cell.1).pex = pex) ∧
        (meshes cell.1).ystart ≤ cell.2 ∧ cell.2 ≤ (meshes cell.1).yend} {row | 0 ≤ row ∧ row < l.shape.ny} := by
  have global (i : Nat) (inside : i < l.count) (y : Int) (low : (meshes i).ystart ≤ y) (high : y ≤ (meshes i).yend) :
      (l.shape.myg ≤ y ∧ y < l.shape.myg + l.height i) ∧ (meshes i).globalY y = y - l.shape.myg + l.bottom i := by
    have top := yend_eq words (given i inside)
    have start := (start_eq (given i inside)).2
    exact ⟨by omega, globalY_eq words (given i inside) low high⟩
  have column (i : Nat) (inside : i < l.count) (own : (meshes i).pex = pex) : l.column i = pex := by
    exact_mod_cast (pex_eq (given i inside)).symm.trans own
  refine ⟨?_, ?_, ?_⟩
  · rintro ⟨i, y⟩ ⟨⟨inside, -⟩, low, high⟩
    obtain ⟨row, same⟩ := global i inside y low high
    have tall : 0 ≤ l.bottom i ∧ max 1 l.shape.myg ≤ l.height i ∧ l.bottom i + l.height i ≤ l.shape.ny := bottom_range inside
    change 0 ≤ (meshes i).globalY y ∧ (meshes i).globalY y < l.shape.ny
    omega
  · rintro ⟨i, y⟩ ⟨⟨inside, own⟩, low, high⟩ ⟨j, y'⟩ ⟨⟨inside', own'⟩, low', high'⟩ same
    obtain ⟨row, here⟩ := global i inside y low high
    obtain ⟨row', there⟩ := global j inside' y' low' high'
    simp only [here, there] at same
    have rows : l.row i = l.row j := by
      simp only [height, bottom] at same row row'
      apply Index.Partition.piece_unique l.rows_nonneg (i := y - l.shape.myg + l.bottom i) <;> simp only [bottom] <;> omega
    obtain rfl := eq_of_place ((column i inside own).trans (column j inside' own').symm) rows
    simp only [Prod.mk.injEq, true_and]
    omega
  · rintro row ⟨low, high⟩
    obtain ⟨k, inRows, bottom, top⟩ := Index.Partition.exists_piece l.rows_nonneg low (by rw [l.allRows]; exact high)
    obtain ⟨i, inside, rfl, rfl⟩ := l.exists_rank known inRows
    have start := (start_eq (given i inside)).2
    have last := yend_eq words (given i inside)
    have own : (meshes i).ystart ≤ row - l.bottom i + l.shape.myg ∧ row - l.bottom i + l.shape.myg ≤ (meshes i).yend := by
      simp only [height, Layout.bottom] at last ⊢
      omega
    refine ⟨(i, row - l.bottom i + l.shape.myg), ⟨⟨inside, pex_eq (given i inside)⟩, own⟩, ?_⟩
    simp only [(global i inside _ own.1 own.2).2]
    omega

/-- Whatever the ranks in one column of the processor grid have in their interior rows is given by the rows of the
grid. -/
theorem Layout.exists_rows {pex : Nat} (known : pex < l.columns.parts) {β : Type} (value : Nat → Int → β) :
    ∃ rows : Int → β, ∀ i < l.count, (meshes i).pex = pex → ∀ y, (meshes i).ystart ≤ y → y ≤ (meshes i).yend →
      value i y = rows ((meshes i).globalY y) := by
  obtain ⟨owner, owned⟩ : ∃ owner : Int → Nat × Int, ∀ i < l.count, (meshes i).pex = pex → ∀ y, (meshes i).ystart ≤ y →
      y ≤ (meshes i).yend → owner ((meshes i).globalY y) = (i, y) :=
    ⟨_, fun i inside own y low high => (rows_bijOn words given known).injOn.leftInvOn_invFunOn
      (show (i, y) ∈ _ from ⟨⟨inside, own⟩, low, high⟩)⟩
  exact ⟨fun row => value (owner row).1 (owner row).2, fun i inside own y low high => by simp only [owned i inside own y low high]⟩

theorem interiorSum_places {value : Nat → Int → Int → M} {on : Int × Int → Prop} {n : Nat} (place : Nat → Int × Int)
    (distinct : ∀ a < n, ∀ b < n, place a = place b → a = b)
    (within : ∀ k < n, (l.shape.mxg ≤ (place k).1 ∧ (place k).1 < l.shape.mxg + l.shape.mx) ∧
      0 ≤ (place k).2 ∧ (place k).2 < l.shape.ny)
    (reached : ∀ p : Int × Int, (l.shape.mxg ≤ p.1 ∧ p.1 < l.shape.mxg + l.shape.mx) → (0 ≤ p.2 ∧ p.2 < l.shape.ny) →
      (on p ↔ ∃ k < n, place k = p))
    {total : Nat → M} (values : ∀ i < l.count, ∀ x y, (meshes i).isInterior x y = true → ∀ k < n,
      place k = ((meshes i).globalX x, (meshes i).globalY y) → value i x y = total k) :
    interiorSum l.count meshes value on = ∑ k ∈ Finset.range n, total k := by
  classical
  have cells := Layout.cells_bijOn words given
  have member (c : Σ _ : Nat, Int × Int) : c ∈ (Finset.range l.count).sigma (fun i =>
      Finset.Icc (meshes i).xstart (meshes i).xend ×ˢ Finset.Icc (meshes i).ystart (meshes i).yend) ↔
      c.1 < l.count ∧ (meshes c.1).isInterior c.2.1 c.2.2 = true := by
    simp only [Finset.mem_sigma, Finset.mem_range, Finset.mem_product, Finset.mem_Icc, Mesh.isInterior, Bool.and_eq_true,
      decide_eq_true_eq, and_assoc]
  rw [interiorSum, Finset.sum_sigma']
  refine sum_places (fun c : Σ _ : Nat, Int × Int => ((meshes c.1).globalX c.2.1, (meshes c.1).globalY c.2.2)) place
    (fun c among c' among' same => ?_) distinct (fun k inside => ?_) (fun c among => ?_) fun c among k inside same => ?_
  · have equal := cells.injOn (show (c.1, c.2) ∈ _ from (member c).mp among) (show (c'.1, c'.2) ∈ _ from (member c').mp among')
      same
    obtain ⟨i, p⟩ := c
    obtain ⟨j, q⟩ := c'
    obtain ⟨rfl, rfl⟩ := Prod.mk.inj equal
    rfl
  · obtain ⟨⟨i, p⟩, own, same⟩ := cells.surjOn (within k inside)
    exact ⟨⟨i, p⟩, (member ⟨i, p⟩).mpr own, same⟩
  · obtain ⟨columns, rows⟩ := cells.mapsTo (show (c.1, c.2) ∈ _ from (member c).mp among)
    exact reached _ columns rows
  · obtain ⟨inside', interior⟩ := (member c).mp among
    exact values c.1 inside' c.2.1 c.2.2 interior k inside same

/-- The ranks that a field line passes through hold its rows between them. -/
theorem rowSum_track {pex : Nat} (known : pex < l.columns.parts) {inner : Bool} {row : Int} (low : 0 ≤ row)
    (high : row < l.shape.ny) {value : Nat → Int → M} (total : Int → M)
    (values : ∀ i < l.count, (meshes i).pex = pex → ∀ y, (meshes i).ystart ≤ y → y ≤ (meshes i).yend → ∀ k,
      0 ≤ k → k < (l.shape.topology.track inner row).length →
      (l.shape.topology.track inner row).row k = (meshes i).globalY y → value i y = total k) :
    rowSum l.count meshes pex value (l.shape.topology.OnLine inner row) =
      ∑ k ∈ Finset.range (l.shape.topology.track inner row).length.toNat, total k := by
  classical
  have rows := Layout.rows_bijOn words given known
  have member (c : Σ _ : Nat, Int) : c ∈ ((Finset.range l.count).filter fun i => (meshes i).pex = pex).sigma (fun i =>
      Finset.Icc (meshes i).ystart (meshes i).yend) ↔
      (c.1 < l.count ∧ (meshes c.1).pex = pex) ∧ (meshes c.1).ystart ≤ c.2 ∧ c.2 ≤ (meshes c.1).yend := by
    simp only [Finset.mem_sigma, Finset.mem_filter, Finset.mem_range, Finset.mem_Icc]
  obtain ⟨own, placed, here⟩ := Topology.track_place inner l.proper low high
  rw [rowSum, Finset.sum_sigma']
  refine sum_places (fun c : Σ _ : Nat, Int => (meshes c.1).globalY c.2)
    (fun k => (l.shape.topology.track inner row).row k)
    (fun c among c' among' same => ?_) (fun a insideA b insideB same => ?_) (fun k inside => ?_) (fun c among => ?_)
    fun c among k inside same => ?_
  · have equal := rows.injOn (show (c.1, c.2) ∈ _ from (member c).mp among) (show (c'.1, c'.2) ∈ _ from (member c').mp among')
      same
    obtain ⟨i, y⟩ := c
    obtain ⟨j, y'⟩ := c'
    obtain ⟨rfl, rfl⟩ := Prod.mk.inj equal
    rfl
  · exact Int.natCast_inj.mp (Topology.track_inj l.proper same)
  · have place : 0 ≤ (k : Int) ∧ (k : Int) < (l.shape.topology.track inner row).length := by omega
    obtain ⟨⟨i, y⟩, own', same⟩ := rows.surjOn (Topology.track_row l.proper high place).1
    exact ⟨⟨i, y⟩, (member ⟨i, y⟩).mpr own', same⟩
  · have line := Topology.onLine_track l.proper high placed ((meshes c.1).globalY c.2)
    rw [here] at line
    rw [line]
    constructor
    · intro found
      obtain ⟨k, within, same⟩ := found
      exact ⟨k.toNat, by omega, by rw [Int.toNat_of_nonneg within.1]; exact same⟩
    · intro found
      obtain ⟨k, within, same⟩ := found
      exact ⟨k, by omega, same⟩
  · obtain ⟨⟨inside', own'⟩, rows'⟩ := (member c).mp among
    exact values c.1 inside' own' c.2 rows'.1 rows'.2 k (by omega) (by omega) same

end Sums
end HaloMesh
