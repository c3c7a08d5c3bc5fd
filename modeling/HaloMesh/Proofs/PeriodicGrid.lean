import HaloMesh.Proofs.FluxConservation
import HaloMesh.Proofs.OffAxisDerivative

/-! Grids without boundaries. What all ranks hold together is a function of the point of the grid that repeats along
every axis, and around an interior point of a block lie the values of that function once the guard cells are filled. -/

namespace HaloMesh
open Exact (around)

namespace GridShape

variable {α : Type} (g : GridShape α)

/-- The place in the interior that a place along an axis stands for in a grid without boundaries. -/
def fold (axis : Axis) (t : Int) : Int :=
  match axis with
  | .x => g.mxg + (t - g.mxg) % g.mx
  | .y => t % g.ny
  | .z => t % g.nz

theorem fold_add (axis : Axis) (t j : Int) : g.fold axis (g.fold axis t + j) = g.fold axis (t + j) := by
  cases axis with
  | x =>
    simp only [fold]
    rw [show g.mxg + (t - g.mxg) % g.mx + j - g.mxg = (t - g.mxg) % g.mx + j by omega, Int.emod_add_emod,
      show t - g.mxg + j = t + j - g.mxg by omega]
  | y => exact Int.emod_add_emod ..
  | z => exact Int.emod_add_emod ..

theorem fold_fold (axis : Axis) (t : Int) : g.fold axis (g.fold axis t) = g.fold axis t := by
  simpa only [Int.add_zero] using g.fold_add axis t 0

def foldPoint (P : Axis → Int) : Axis → Int := fun axis => g.fold axis (P axis)

theorem foldPoint_update (P : Axis → Int) (axis : Axis) (j : Int) :
    g.foldPoint (Function.update (g.foldPoint P) axis (g.foldPoint P axis + j)) =
      g.foldPoint (Function.update P axis (P axis + j)) := by
  funext other
  by_cases same : other = axis
  · subst same
    simp only [foldPoint, Function.update_self, fold_add]
  · simp only [foldPoint, Function.update_of_ne same, fold_fold]

/-- A function that comes back to its value once around a grid without boundaries, along any axis. -/
def Repeats (D : (Axis → Int) → ℝ) : Prop := ∀ P, D (g.foldPoint P) = D P

end GridShape

namespace Mesh

variable {α : Type} (m : Mesh α)

/-- A point of a block as a point of the grid. -/
def globalAt (p : Axis → Int) : Axis → Int
  | .x => m.globalX (p .x)
  | .y => m.globalY (p .y)
  | .z => p .z

structure Inside (p : Axis → Int) : Prop where
  interior : m.isInterior (p .x) (p .y) = true
  low : 0 ≤ p .z
  high : p .z < m.localNz

/-- How far around a point there are values along an axis. -/
def Near (axis : Axis) (j : Int) : Prop := axis = .z ∨ -m.guards axis ≤ j ∧ j ≤ m.guards axis

variable (m : Mesh ℝ)

/-- A field has the values of a function of the whole grid in the interior of a block. -/
def Follows (D : (Axis → Int) → ℝ) (f : Field ℝ) : Prop := ∀ p, m.Inside p → f.pointValue p = D (m.globalAt p)

/-- A field has the values of a function of the whole grid on the lines around every interior point. -/
def Surrounds (D : (Axis → Int) → ℝ) (f : Field ℝ) : Prop :=
  ∀ p, m.Inside p → ∀ axis j, m.Near axis j →
    f.lineAt axis p (p axis + j) = D (Function.update (m.globalAt p) axis (m.globalAt p axis + j))

variable {m} {D : (Axis → Int) → ℝ} {f d : Field ℝ}

theorem Surrounds.follows (holds : m.Holds f) (surrounds : m.Surrounds D f) : m.Follows D f := by
  intro p inside
  have here := surrounds p inside .z 0 (.inl rfl)
  have deep : (f.nz : Int) = m.localNz := holds.sizes.2.2
  rw [Field.lineAt, Field.turned, if_pos rfl, Int.add_zero, Int.add_zero, deep,
    Int.emod_eq_of_lt inside.low inside.high, Function.update_eq_self, Function.update_eq_self] at here
  exact here

theorem Holds.near (holds : m.Holds f) {p : Axis → Int} (inside : m.Inside p) {axis : Axis} {j : Int}
    (near : m.Near axis j) : f.HasAt (Function.update p axis (f.turned axis (p axis + j))) := by
  obtain ⟨has, evaluated⟩ := holds.interior inside.interior inside.low inside.high
  have here : axis.coordinate (p .x) (p .y) (p .z) = p axis := by cases axis <;> rfl
  apply has.update
  rcases near with vertical | near
  · exact .inl vertical
  · have fits : axis = .z ∨ ((m.guards axis).toNat : Int) ≤ m.guards axis := .inr (by omega)
    refine holds.bears.reads (z := p .z) fits (evaluated axis false) ?_ ?_ <;> omega

end Mesh

/-- The weighted sums of a function along an axis. -/
noncomputable def slide (w : Int → ℝ) (axis : Axis) (D : (Axis → Int) → ℝ) (P : Axis → Int) : ℝ :=
  around w (fun t => D (Function.update P axis t)) (P axis)

section Slides

variable {v w : Int → ℝ} {axis other : Axis} {D E : (Axis → Int) → ℝ}

theorem slide_comm (across : axis ≠ other) : slide v axis (slide w other D) = slide w other (slide v axis D) := by
  funext P
  simp only [slide, Function.update_of_ne across, Function.update_of_ne across.symm]
  rw [Exact.around_comm]
  simp only [Function.update_comm across.symm]

theorem slide_sub (P : Axis → Int) : slide w axis (fun Q => D Q - E Q) P = slide w axis D P - slide w axis E P := by
  simp only [slide, around, mul_sub, Finset.sum_sub_distrib]

theorem slide_div (h : ℝ) (P : Axis → Int) : slide w axis (fun Q => D Q / h) P = slide w axis D P / h := by
  simp only [slide, around, div_eq_mul_inv, Finset.sum_mul, mul_assoc]

theorem GridShape.Repeats.slide {g : GridShape ℝ} (repeats : g.Repeats D) : g.Repeats (slide w axis D) := by
  intro P
  apply Exact.around_congr
  intro j _
  rw [← repeats, g.foldPoint_update, repeats]

end Slides

/-- Weighted sums of a field are those of the function that it is part of. -/
theorem Mesh.Weighted.follows {m : Mesh ℝ} {axis : Axis} {w : Int → ℝ} {inc : Bool} {f d : Field ℝ}
    {D : (Axis → Int) → ℝ} (holds : m.Holds f) (near : ∀ j, w j ≠ 0 → m.Near axis j)
    (weighted : m.Weighted axis w inc f d) (surrounds : m.Surrounds D f) : m.Follows (slide w axis D) d := by
  intro p inside
  obtain ⟨has, evaluated⟩ := holds.interior inside.interior inside.low inside.high
  rw [weighted.values p has, if_pos (evaluated axis inc)]
  exact Exact.around_congr fun j counts => surrounds p inside axis j (near j counts)

section Closed

variable {l : Layout ℝ} {meshes : Nat → Mesh ℝ} {before after : Nat → Field ℝ} {D : (Axis → Int) → ℝ}
  (given : ∀ i < l.count, l.Assigns i (meshes i)) (room : ∀ i < l.count, (meshes i).HasRoom)
include given room

theorem Mesh.Inside.fold {i : Nat} (within : i < l.count) {p : Axis → Int} (inside : (meshes i).Inside p) :
    l.shape.foldPoint ((meshes i).globalAt p) = (meshes i).globalAt p := by
  have words := Layout.inWords_of_room (given i within) (room i within)
  obtain ⟨interior, low, high⟩ := inside
  have place := (Layout.cells_bijOn words given).mapsTo (show (i, p .x, p .y) ∈ _ from ⟨within, interior⟩)
  obtain ⟨⟨left, right⟩, bottom, top⟩ := place
  rw [Layout.localNz_eq (given i within)] at high
  simp only at left right bottom top
  funext axis
  cases axis with
  | x =>
    simp only [GridShape.foldPoint, GridShape.fold, Mesh.globalAt]
    rw [Int.emod_eq_of_lt (by omega) (by omega)]
    omega
  | y => exact Int.emod_eq_of_lt bottom top
  | z => exact Int.emod_eq_of_lt low high

/-- Every point of a grid without boundaries is an interior point of a block. -/
theorem Layout.exists_inside (some_ : 0 < l.count) (P : Axis → Int) :
    ∃ i < l.count, ∃ p, (meshes i).Inside p ∧ (meshes i).globalAt p = l.shape.foldPoint P := by
  have words := Layout.inWords_of_room (given 0 some_) (room 0 some_)
  have wide := l.wide
  have tall := l.tall
  have depth := l.depth
  have columns : 0 < l.shape.mx := by
    rw [← l.allColumns]
    exact Index.Partition.total_pos (by omega)
  have rows : 0 < l.shape.ny := by
    rw [← l.allRows]
    exact Index.Partition.total_pos (by omega)
  have points : 0 < l.shape.nz := by omega
  have column := Int.emod_nonneg (P .x - l.shape.mxg) columns.ne'
  have column' := Int.emod_lt_of_pos (P .x - l.shape.mxg) columns
  obtain ⟨⟨i, x, y⟩, ⟨within, interior⟩, place⟩ := (Layout.cells_bijOn words given).surjOn
    (a := (l.shape.fold .x (P .x), l.shape.fold .y (P .y)))
    ⟨⟨by simp only [GridShape.fold]; omega, by simp only [GridShape.fold]; omega⟩, Int.emod_nonneg _ rows.ne',
      Int.emod_lt_of_pos _ rows⟩
  obtain ⟨onColumn, onRow⟩ := Prod.mk.inj place
  refine ⟨i, within, fun axis => axis.coordinate x y (l.shape.fold .z (P .z)), ⟨interior, Int.emod_nonneg _ points.ne', ?_⟩, ?_⟩
  · rw [Layout.localNz_eq (given i within)]
    exact Int.emod_lt_of_pos _ points
  · funext axis
    cases axis
    · exact onColumn
    · exact onRow
    · rfl

/-- The fields of all ranks follow one function of the grid. -/
theorem Layout.exists_followed (some_ : 0 < l.count) (fields : Nat → Field ℝ) :
    ∃ D, l.shape.Repeats D ∧ ∀ i < l.count, (meshes i).Follows D (fields i) := by
  have words := Layout.inWords_of_room (given 0 some_) (room 0 some_)
  obtain ⟨data, sampled⟩ := Layout.exists_data words given fields
  let D (P : Axis → Int) : ℝ := data (l.shape.foldPoint P .x, l.shape.foldPoint P .y, l.shape.foldPoint P .z)
  refine ⟨D, fun P => ?_, fun i within p inside => ?_⟩
  · simp only [D, GridShape.foldPoint, GridShape.fold_fold]
  · simp only [D, inside.fold given room within]
    exact sampled i within _ _ _ inside.interior inside.low inside.high

/-- A function of the grid, as data of its columns, rows and layers. -/
def dataOf (D : (Axis → Int) → ℝ) (q : Int × Int × Int) : ℝ := D fun axis => axis.coordinate q.1 q.2.1 q.2.2

omit given room in
theorem Mesh.Follows.samples {m : Mesh ℝ} {f : Field ℝ} (follows : m.Follows D f) : m.SamplesInterior (dataOf D) f := by
  intro x y z interior low high
  refine (follows (fun axis => axis.coordinate x y z) ⟨interior, low, high⟩).trans (congrArg D ?_)
  funext axis
  cases axis <;> rfl

section Guards

variable (filled : Filled l.count meshes before after) (shaped : ∀ i < l.count, (before i).extents = (meshes i).extents)
  (repeats : l.shape.Repeats D) (followed : ∀ i < l.count, (meshes i).Follows D (before i)) {i : Nat} (within : i < l.count)
  {p : Axis → Int} (inside : (meshes i).Inside p) {j : Int}
include filled shaped repeats followed within inside

private theorem along_x (periodic : l.shape.periodicX = true) (near : (meshes i).Near .x j) :
    (after i).along .x (p .x) (p .y) (p .z) (p .x + j) =
      D (Function.update ((meshes i).globalAt p) .x ((meshes i).globalAt p .x + j)) := by
  have point : 0 ≤ p .z ∧ p .z < l.shape.nz := ⟨inside.low, Layout.localNz_eq (given i within) ▸ inside.high⟩
  have folded (other : Axis) := congrFun (inside.fold given room within) other
  have reach := near.resolve_left (by decide)
  rw [Mesh.guards, Layout.shape_eq (given i within)] at reach
  rw [along_around given room shaped filled within (fun k within => (followed k within).samples) periodic inside.interior
    point reach (t := (meshes i).globalX (p .x) - l.shape.mxg) (by omega), ← repeats]
  refine congrArg D (funext fun other => ?_)
  cases other with
  | x =>
    simp only [Axis.coordinate, GridShape.foldPoint, Function.update_self, GridShape.fold, Mesh.globalAt]
    rw [show (meshes i).globalX (p .x) - l.shape.mxg + j = (meshes i).globalX (p .x) + j - l.shape.mxg by omega]
  | y => exact (folded .y).symm
  | z => exact (folded .z).symm

private theorem along_y (closed : l.shape.topology = .rectangular l.shape.ny true) (straight : l.shape.twistShift = false)
    (near : (meshes i).Near .y j) : (after i).along .y (p .x) (p .y) (p .z) (p .y + j) =
      D (Function.update ((meshes i).globalAt p) .y ((meshes i).globalAt p .y + j)) := by
  have words := Layout.inWords_of_room (given i within) (room i within)
  have own := (Layout.isInterior_iff words (given i within)).mp inside.interior
  have point : 0 ≤ p .z ∧ p .z < l.shape.nz := ⟨inside.low, Layout.localNz_eq (given i within) ▸ inside.high⟩
  have folded (other : Axis) := congrFun (inside.fold given room within) other
  have reach := near.resolve_left (by decide)
  rw [Mesh.guards, Layout.shape_eq (given i within)] at reach
  obtain ⟨-, bottom, top⟩ :=
    (Layout.cells_bijOn words given).mapsTo (show (i, p .x, p .y) ∈ _ from ⟨within, inside.interior⟩)
  have guards := l.guards
  -- every column is one closed line with the rows in their order
  have track : l.shape.track ((meshes i).globalX (p .x)) ((meshes i).globalY (p .y)) = ⟨0, 0, l.shape.ny, true⟩ := by
    rw [GridShape.track, closed]
    rfl
  have row (k : Int) : (⟨0, 0, l.shape.ny, true⟩ : Topology.Track).row k = k := by simp [Topology.Track.row]
  let rows (row : Int) : ℝ := dataOf D ((meshes i).globalX (p .x), row, p .z)
  have known (k : Nat) (inside' : k < l.count) (same : (meshes k).pex = (meshes i).pex) (y : Int)
      (low : (meshes k).ystart ≤ y) (high : y ≤ (meshes k).yend) :
      (after k).value (p .x) y (p .z) = rows ((meshes k).globalY y) := by
    obtain ⟨interior, across⟩ := Layout.interior_above words (given i within) (given k inside') same own.1 low high
    rw [value_interior given room shaped filled (fun k within => (followed k within).samples) inside' interior point,
      across]
  have carried := along_closed given room shaped filled within straight
    (by rw [closed]; exact (by decide : (0 : Int) < Text.wordEnd)) (x := p .x) (y := p .y) (z := p .z) (by omega) point
    bottom top (by rw [closed]; rfl) known own.2 (t := (meshes i).globalY (p .y)) (by rw [track]; exact ⟨bottom, top⟩)
    (by rw [track, row]) reach
  rw [track, row] at carried
  rw [carried, ← repeats]
  refine congrArg D (funext fun other => ?_)
  cases other with
  | x => exact (folded .x).symm
  | y => rfl
  | z => exact (folded .z).symm

private theorem along_z : (after i).along .z (p .x) (p .y) (p .z) (p .z + j) =
    D (Function.update ((meshes i).globalAt p) .z ((meshes i).globalAt p .z + j)) := by
  have folded (other : Axis) := congrFun (inside.fold given room within) other
  have deep : ((after i).nz : Int) = l.shape.nz := by
    rw [(filled.alike i within).nz]
    exact (Layout.sizes_eq (given i within) (room i within) (shaped i within)).2.2
  have depth := l.depth
  have wrapped : 0 ≤ (p .z + j) % l.shape.nz ∧ (p .z + j) % l.shape.nz < l.shape.nz :=
    ⟨Int.emod_nonneg _ (by omega), Int.emod_lt_of_pos _ (by omega)⟩
  rw [Field.along, deep, value_interior given room shaped filled (fun k within => (followed k within).samples) within
    inside.interior wrapped, ← repeats]
  refine congrArg D (funext fun other => ?_)
  cases other with
  | x => exact (folded .x).symm
  | y => exact (folded .y).symm
  | z => rfl

end Guards

/-- In a grid without boundaries the guard cells go on with the function that the interior follows. -/
theorem Filled.surrounds (filled : Filled l.count meshes before after)
    (shaped : ∀ i < l.count, (before i).extents = (meshes i).extents) (periodic : l.shape.periodicX = true)
    (closed : l.shape.topology = .rectangular l.shape.ny true) (straight : l.shape.twistShift = false)
    (repeats : l.shape.Repeats D) (followed : ∀ i < l.count, (meshes i).Follows D (before i)) {i : Nat} (within : i < l.count) :
    (meshes i).Surrounds D (after i) := by
  intro p inside axis j near
  rw [← Field.along_eq]
  cases axis with
  | x => exact along_x given room filled shaped repeats followed within inside periodic near
  | y => exact along_y given room filled shaped repeats followed within inside closed straight near
  | z => exact along_z given room filled shaped repeats followed within inside

end Closed

end HaloMesh
