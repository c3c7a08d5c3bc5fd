import Mathlib.Analysis.Real.Sqrt
import HaloMesh.Proofs.LevelFields
import HaloMesh.Proofs.MetricInverse

/-! Metrics that stay inverse to each other. Where nothing is shifted, a column gets in an exchange what some column of a
rank had, in all quantities of the metric. So what holds in every column before holds in every column after. -/

namespace HaloMesh

section Sources

variable {α : Type} [Scalar α] {l : Layout α} {meshes : Nat → Mesh α} {i : Nat} {x y : Int}
  (given : ∀ i < l.count, l.Assigns i (meshes i)) (room : ∀ i < l.count, (meshes i).HasRoom)

/-- One field of each rank, as large as its block. -/
def Spread (l : Layout α) (meshes : Nat → Mesh α) (f : Nat → Field α) : Prop :=
  ∀ i < l.count, (f i).extents = (meshes i).extents

include given room in
/-- Where nothing is shifted, a column has after a phase what some column had before, the same one in all fields. -/
theorem Passed.exists_source (straight : l.shape.twistShift = false) (sides : List Side) (inside : i < l.count) :
    ∃ j < l.count, ∃ x' y', ∀ before after, Spread l meshes before → Passed l meshes sides before after →
      (before i).HasColumn x y → (before j).HasColumn x' y' ∧ (after i).line x y = (before j).line x' y' := by
  by_cases guard : ∃ side ∈ sides, ∃ d, (meshes i).neighbour? side = some d ∧ (l.targetBlock i side).Contains x y
  · obtain ⟨side, member, d, across, contained⟩ := guard
    obtain ⟨j, within, rfl⟩ := Layout.neighbour_lt (given i inside) across
    refine ⟨j, within, _, _, fun before after shaped passed has =>
      ⟨Layout.source_within (given j within) (room j within) (shaped j within) side.opposite _ _
        (Passed.sent_from given inside across contained).2, ?_⟩⟩
    have unturned : (meshes i).turnOn side = 0 := by
      cases side <;> simp [Mesh.turnOn, Layout.shape_eq (given i inside), straight]
    rw [passed.filled i inside side member j across x y contained, Mesh.received, if_pos unturned]
  · refine ⟨i, inside, x, y, fun before after shaped passed has => ⟨has, passed.kept i inside x y has ?_⟩⟩
    exact fun side member d across contained => guard ⟨side, member, d, across, contained⟩

namespace Exchanged

variable {before after before' after' : Nat → Field α}

theorem alike (exchanged : Exchanged l meshes before after) (inside : i < l.count) : Field.Alike (before i) (after i) := by
  obtain ⟨middle, first, second⟩ := exchanged
  exact (first.alike i inside).trans (second.alike i inside)

include given room

theorem exists_source (straight : l.shape.twistShift = false) (inside : i < l.count) (x y : Int) :
    ∃ j < l.count, ∃ x' y', ∀ before after, Spread l meshes before → Exchanged l meshes before after →
      ∀ z, (before i).HasPoint x y z → (before j).HasPoint x' y' z ∧ (after i).value x y z = (before j).value x' y' z := by
  obtain ⟨j, within, x', y', second⟩ := Passed.exists_source (x := x) (y := y) given room straight l.shape.ySides inside
  obtain ⟨k, among, x'', y'', first⟩ := Passed.exists_source (x := x') (y := y') given room straight l.shape.xSides within
  refine ⟨k, among, x'', y'', fun before after shaped exchanged z has => ?_⟩
  have alike := exchanged.alike inside
  obtain ⟨middle, passed, passed'⟩ := exchanged
  have shaped' : Spread l meshes middle := fun i inside => (passed.alike i inside).extents.trans (shaped i inside)
  obtain ⟨has', line⟩ := second middle after shaped' passed' ((passed.alike i inside).hasColumn.mpr has.1)
  obtain ⟨has'', line'⟩ := first before middle shaped passed ((passed.alike j within).hasColumn.mp has')
  have fits (i : Nat) (inside : i < l.count) : (before i).Fits :=
    (Layout.holds (given i inside) (room i inside) (shaped i inside)).fits
  have point : (before k).HasPoint x'' y'' z :=
    ⟨has'', (hasPoint_iff given room shaped among).mpr ⟨(Layout.hasColumn_iff (given k among) (room k among)
      (shaped k among)).mp has'', ((hasPoint_iff given room shaped inside).mp has).2⟩ |>.2⟩
  exact ⟨point, Field.value_of_line (fits k among) (alike.fits (fits i inside)) point (alike.hasPoint.mpr has)
    (line.trans line')⟩

/-- What an exchange makes of fields is fixed by what they are before. -/
theorem unique (straight : l.shape.twistShift = false) (shaped : Spread l meshes before)
    (first : Exchanged l meshes before after) (second : Exchanged l meshes before' after')
    (same : ∀ i < l.count, before i = before' i) (inside : i < l.count) : after i = after' i := by
  have shaped' : Spread l meshes before' := fun j within => same j within ▸ shaped j within
  have alike := second.alike inside
  rw [← same i inside] at alike
  have fits := (Layout.holds (given i inside) (room i inside) (shaped i inside)).fits
  refine Field.eq_of_values (alike.fits fits) (alike.symm.trans (first.alike inside)) fun x y z has => ?_
  obtain ⟨j, within, x', y', source⟩ := exists_source given room straight inside x y
  have has' := alike.hasPoint.mp has
  rw [(source _ _ shaped first z has').2, (source _ _ shaped' second z (same i inside ▸ has')).2, same j within]

end Exchanged

end Sources

/-- The metrics of coordinates over a block. Each is the inverse of the other at every point, and the contravariant one
is constant in z. -/
structure Coordinates.Dual (c : Coordinates ℝ) (m : Mesh ℝ) : Prop where
  shaped : ∀ q ∈ Quantity.metric, (c.get q).extents = m.extents
  level : ∀ p, (c.contravariant.get p).Level
  inverse : ∀ x y z, c.contravariant.c11.HasPoint x y z → c.DualAt x y z

namespace Coordinates

variable {l : Layout ℝ} {meshes : Nat → Mesh ℝ} {i : Nat} {m : Mesh ℝ} {c : Coordinates ℝ}

/-- A metric that was inverted. -/
theorem Dual.of_inverse (fits : c.contravariant.c11.Fits) (shaped : ∀ q ∈ Quantity.metric, (c.get q).extents = m.extents)
    (level : ∀ p, (c.contravariant.get p).Level) (inverted : c.contravariant.inverse = .ok c.covariant) : c.Dual m := by
  have block (p : Pair) : (c.contravariant.get p).extents = c.contravariant.c11.extents :=
    (shaped (.contravariant p) (Quantity.contravariant_mem p)).trans (shaped (.contravariant .p11) (by decide)).symm
  refine ⟨shaped, level, fun x y z has i k => ?_⟩
  rw [← Symmetric.inverse_values inverted fits block has i k]
  refine Finset.sum_congr rfl fun l _ => congrArg (· * _) ?_
  have point (z : Int) (has : c.contravariant.c11.HasPoint x y z) : (c.contravariant.get (.of i l)).HasPoint x y z :=
    (Field.hasPoint_congr (block _)).mpr has
  exact level (.of i l) x y z 0 (point z has) (point 0 ⟨has.1, le_refl 0, by have := has.2; omega⟩)

/-- An exchange leaves metrics inverse to each other everywhere. -/
theorem Dual.exchanged {before after : Nat → Coordinates ℝ} (given : ∀ i < l.count, l.Assigns i (meshes i))
    (room : ∀ i < l.count, (meshes i).HasRoom) (straight : l.shape.twistShift = false)
    (dual : ∀ i < l.count, (before i).Dual (meshes i))
    (exchanged : ∀ q ∈ Quantity.metric, Exchanged l meshes (fun i => (before i).get q) fun i => (after i).get q)
    (inside : i < l.count) : (after i).Dual (meshes i) := by
  have alike (q : Quantity) (member : q ∈ Quantity.metric) := (exchanged q member).alike inside
  have shaped (q : Quantity) (member : q ∈ Quantity.metric) : Spread l meshes fun i => (before i).get q :=
    fun j within => (dual j within).shaped q member
  have upper (p : Pair) := exchanged (.contravariant p) (Quantity.contravariant_mem p)
  refine ⟨fun q member => (alike q member).extents.trans ((dual i inside).shaped q member), fun p x y z z' has has' => ?_,
    fun x y z has => ?_⟩
  · obtain ⟨j, within, x', y', source⟩ := Exchanged.exists_source given room straight inside x y
    have like := alike (.contravariant p) (Quantity.contravariant_mem p)
    obtain ⟨there, value⟩ := source _ _ (shaped _ (Quantity.contravariant_mem p)) (upper p) z (like.hasPoint.mp has)
    obtain ⟨there', value'⟩ := source _ _ (shaped _ (Quantity.contravariant_mem p)) (upper p) z' (like.hasPoint.mp has')
    exact value.trans (((dual j within).level p x' y' z z' there there').trans value'.symm)
  · obtain ⟨j, within, x', y', source⟩ := Exchanged.exists_source given room straight inside x y
    have drawn (q : Quantity) (member : q ∈ Quantity.metric) : ((before j).get q).HasPoint x' y' z ∧
        ((after i).get q).value x y z = ((before j).get q).value x' y' z := by
      refine source _ _ (shaped q member) (exchanged q member) z ?_
      have same : ((before i).get q).extents = ((after i).get (.contravariant .p11)).extents :=
        ((dual i inside).shaped q member).trans (((alike (.contravariant .p11) (by decide)).extents.trans
          ((dual i inside).shaped _ (by decide))).symm)
      exact (Field.hasPoint_congr same).mpr has
    intro a b
    rw [← (dual j within).inverse x' y' z (drawn (.contravariant .p11) (by decide)).1 a b]
    refine Finset.sum_congr rfl fun k _ => congrArg₂ (· * ·) ?_ ?_
    · exact (drawn (.contravariant (.of a k)) (Quantity.contravariant_mem _)).2
    · exact (drawn (.covariant (.of k b)) (Quantity.covariant_mem _)).2

end Coordinates

end HaloMesh
