import HaloMesh.Proofs.FieldLineRows

/-! Lines of the grid without an end. Without boundary in x the guard columns repeat the interior ones, and along a closed
field line the guard rows repeat its rows. -/

namespace HaloMesh

variable {α : Type}

/-- The field line through a point of the grid. -/
def GridShape.track (g : GridShape α) (column row : Int) : Topology.Track :=
  g.topology.track (decide (column < g.topology.separatrix)) row

theorem GridShape.track_length {g : GridShape α} (proper : g.topology.Proper g.ny) (column : Int) {row : Int} (low : 0 ≤ row)
    (high : row < g.ny) : 0 < (g.track column row).length := by
  obtain ⟨k, within, -⟩ := Topology.track_place (decide (column < g.topology.separatrix)) proper low high
  exact Int.lt_of_le_of_lt within.1 within.2

/-- A walk along a field line without an end only counts. -/
theorem GridShape.walk_closed {g : GridShape α} (proper : g.topology.Proper g.ny) {column row : Int} (low : 0 ≤ row)
    (high : row < g.ny) (closed : g.topology.isPeriodic column row = true) (up : Bool) (k : Int) (steps : Nat) :
    g.topology.walk up (decide (column < g.topology.separatrix)) steps
      ((g.track column row).row (k % (g.track column row).length)) =
        some ((g.track column row).row (Topology.ahead up k steps % (g.track column row).length)) := by
  have long := track_length proper column low high
  have walked := Topology.walk_track proper high ⟨Int.emod_nonneg k long.ne', Int.emod_lt_of_pos k long⟩ up steps
  have turned : Topology.ahead up (k % (g.track column row).length) steps % (g.track column row).length =
      Topology.ahead up k steps % (g.track column row).length := by
    cases up
    · exact Int.emod_sub_emod ..
    · exact Int.emod_add_emod ..
  rw [Topology.Track.step, if_pos ((Topology.isPeriodic_eq column).symm.trans closed)] at walked
  exact walked.trans (congrArg (fun place => some ((g.track column row).row place)) turned)

variable [Scalar α]

/-- A field over the block of a rank holds global data at its interior points. -/
def Mesh.SamplesInterior (m : Mesh α) (data : Int × Int × Int → α) (f : Field α) : Prop :=
  ∀ x y z, m.isInterior x y = true → 0 ≤ z → z < m.localNz → f.value x y z = data (m.globalX x, m.globalY y, z)

/-- Whatever fields the ranks have, their interior points are points of the grid. -/
theorem Layout.exists_data {l : Layout α} {meshes : Nat → Mesh α} (words : l.InWords)
    (given : ∀ i < l.count, l.Assigns i (meshes i)) (fields : Nat → Field α) :
    ∃ data, ∀ i < l.count, (meshes i).SamplesInterior data (fields i) := by
  obtain ⟨owner, owned⟩ : ∃ owner : Int × Int → Nat × Int × Int, ∀ i < l.count, ∀ x y,
      (meshes i).isInterior x y = true → owner ((meshes i).globalX x, (meshes i).globalY y) = (i, x, y) :=
    ⟨_, fun i inside x y interior =>
      (cells_bijOn words given).injOn.leftInvOn_invFunOn (show (i, x, y) ∈ _ from ⟨inside, interior⟩)⟩
  refine ⟨fun p => (fields (owner (p.1, p.2.1)).1).value (owner (p.1, p.2.1)).2.1 (owner (p.1, p.2.1)).2.2 p.2.2,
    fun i inside x y z interior _ _ => ?_⟩
  simp only [owned i inside x y interior]

section Repeated

variable {l : Layout α} {meshes : Nat → Mesh α} {before after : Nat → Field α} {data : Int × Int × Int → α}
  (given : ∀ i < l.count, l.Assigns i (meshes i))
  (room : ∀ i < l.count, (meshes i).HasRoom) (shaped : ∀ i < l.count, (before i).extents = (meshes i).extents)
  (filled : Filled l.count meshes before after)
  (sampled : ∀ i < l.count, (meshes i).SamplesInterior data (before i)) {i : Nat} (inside : i < l.count) {x y z : Int}

include given room shaped filled sampled inside

theorem value_interior (interior : (meshes i).isInterior x y = true) (point : 0 ≤ z ∧ z < l.shape.nz) :
    (after i).value x y z = data ((meshes i).globalX x, (meshes i).globalY y, z) := by
  have here := given i inside
  have words := Layout.inWords_of_room here (room i inside)
  rw [value_kept given room shaped filled inside (hasPoint_interior given room shaped inside interior point)
    (Layout.interior_unseamed words here interior)]
  exact sampled i inside x y z interior point.1 (Layout.localNz_eq here ▸ point.2)

/-- Without boundary in x the guard columns repeat the interior ones. -/
theorem value_around (periodic : l.shape.periodicX = true) (has : (before i).HasPoint x y z) (low : l.shape.myg ≤ y)
    (high : y < l.shape.myg + l.height i) :
    (after i).value x y z = data (l.shape.mxg + (x + l.left i - l.shape.mxg) % l.shape.mx, (meshes i).globalY y, z) := by
  have here := given i inside
  have words := Layout.inWords_of_room here (room i inside)
  have place := (hasPoint_iff given room shaped inside).mp has
  have wide := l.left_range i
  by_cases seam : (meshes i).Seam x y
  · obtain ⟨j, within, x', y', interior, column, row, has', value⟩ :=
      seam_column_origin given room shaped filled inside has seam low high
    rw [value, sampled j within x' y' z interior place.2.1 (Layout.localNz_eq (given j within) ▸ place.2.2), column, row,
      GridShape.columnAt, if_pos periodic]
  · have inner := Layout.periodic_seam words here periodic place.1.1 ⟨low, high⟩ seam
    have interior : (meshes i).isInterior x y = true := (Layout.isInterior_iff words here).mpr ⟨inner, low, high⟩
    rw [value_interior given room shaped filled sampled inside interior place.2, Layout.globalX_interior words here interior,
      Int.emod_eq_of_lt (by omega) (by omega)]
    congr 2
    omega

omit sampled

/-- Steps along a field line meet the values of the row that they come to, in every column of the block. -/
theorem walked_origin (straight : l.shape.twistShift = false)
    (word : Index.wrap (l.shape.topology.separatrix - l.left i) = l.shape.topology.separatrix - l.left i)
    (column : 0 ≤ x ∧ x < l.breadth i + 2 * l.shape.mxg) (own : l.shape.myg ≤ y ∧ y < l.shape.myg + l.height i)
    (point : 0 ≤ z ∧ z < l.shape.nz) {up : Bool} {steps : Nat} {row : Int} (near : steps ≤ l.shape.myg)
    (walked : l.shape.topology.walk up (decide ((meshes i).globalX x < l.shape.topology.separatrix)) steps
      ((meshes i).globalY y) = some row) :
    ∃ j < l.count, ∃ y', (meshes j).pex = (meshes i).pex ∧ ((meshes j).ystart ≤ y' ∧ y' ≤ (meshes j).yend) ∧
      (meshes j).globalY y' = row ∧ (after i).value x (Topology.ahead up y steps) z = (after j).value x y' z := by
  have here := given i inside
  have words := Layout.inWords_of_room here (room i inside)
  have start := (Layout.start_eq here).2
  have top := Layout.yend_eq words here
  by_cases stays : l.shape.myg ≤ Topology.ahead up y steps ∧ Topology.ahead up y steps < l.shape.myg + l.height i
  · rw [Layout.walk_inside words here own stays] at walked
    exact ⟨i, inside, _, rfl, by omega, Option.some.inj walked, rfl⟩
  · -- the walk first goes to the edge of the block
    obtain ⟨first, rest, rfl, some_, edge, guard⟩ := Layout.steps_out words here own stays
    have inner := Layout.edge_inside words here up
    rw [← edge] at inner
    rw [Topology.walk_add, Layout.walk_inside words here own inner, edge, Option.bind_some] at walked
    have seam : (meshes i).Seam x ((meshes i).guardRow up rest) := by
      by_contra unseamed
      rw [Topology.walk_ended (Layout.edge_ended words here column word some_ (by omega) unseamed) some_] at walked
      cases walked
    obtain ⟨row', walked', j, within, y', same, rows, global, value⟩ :=
      seam_row_origin given room shaped filled inside straight word column point some_ (by omega) seam
    obtain rfl := Option.some.inj (walked.symm.trans walked')
    exact ⟨j, within, y', same, rows, global, by rw [guard, value]⟩

omit [Scalar α] room shaped filled in
/-- Where a field line has no end, the block counts its distance from the separatrix in words. -/
theorem separatrix_word (words : l.InWords) (bounded : l.shape.topology.separatrix < Text.wordEnd)
    (column : 0 ≤ x ∧ x < l.breadth i + 2 * l.shape.mxg) {row : Int}
    (closed : l.shape.topology.isPeriodic ((meshes i).globalX x) row = true) :
    Index.wrap (l.shape.topology.separatrix - l.left i) = l.shape.topology.separatrix - l.left i := by
  have here := given i inside
  have wide := l.left_range i
  have guards := l.guards
  have columns := words.columns
  rw [Layout.globalX_eq words here column.1 (by rw [Layout.localNx_eq words here]; exact column.2)] at closed
  have low : 0 ≤ l.shape.topology.separatrix := by
    cases known : l.shape.topology with
    | rectangular => exact le_refl _
    | singleNull ny separatrix leg1 leg2 =>
      rw [known] at closed
      have before : x + l.left i < separatrix := of_decide_eq_true (Bool.and_eq_true_iff.mp closed).1
      change 0 ≤ separatrix
      omega
  apply Index.wrap_of_fits <;> omega

end Repeated
end HaloMesh
