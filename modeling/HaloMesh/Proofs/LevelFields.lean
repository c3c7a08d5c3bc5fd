import HaloMesh.Proofs.AlikeFields
import HaloMesh.Proofs.ExactArithmetic
import HaloMesh.Proofs.MetricCompatibility
import HaloMesh.Proofs.LineMeans

/-! Fields that are constant in z. Those read from a grid are, and interpolation leaves them so. -/

namespace HaloMesh

namespace Field

variable {α : Type} [Scalar α] {f g : Field α} {x y z : Int}

/-- All points of a column have the same value. -/
def Level (f : Field α) : Prop := ∀ x y z z', f.HasPoint x y z → f.HasPoint x y z' → f.value x y z = f.value x y z'

theorem value_fill (fits : f.Fits) (has : f.HasPoint x y z) (v : α) : (f.fill v).value x y z = v := by
  obtain ⟨low, high⟩ := place_range fits has
  change ((f.data.map fun _ => v)[(f.place x y z).toNat]?).getD 0 = v
  rw [Array.getElem?_map, Array.getElem?_eq_getElem (by omega)]
  rfl

theorem level_fill (fits : f.Fits) (v : α) : (f.fill v).Level := fun x y z z' has has' => by
  rw [value_fill (f := f) fits has, value_fill (f := f) fits has']

/-- A value for each column, all along z. -/
theorem level_of_columns (fits : f.Fits) {columns : List α}
    (taken : f.withData (columns.flatMap fun v => List.replicate f.nz v).toArray = .ok g) : g.Level := by
  have alike := (withData_ok taken).2
  have parts : ∀ part ∈ columns.map fun v => List.replicate f.nz v, part.length = f.nz := by simp
  have point {x y z : Int} (has : g.HasPoint x y z) : g.value x y z = (columns[(y + f.ny * x).toNat]?).getD 0 := by
    have there := alike.hasPoint.mp has
    obtain ⟨low, high⟩ := place_range fits there
    obtain ⟨⟨⟨lowX, -⟩, lowY, -⟩, lowZ, highZ⟩ := there
    have row : 0 ≤ (f.ny : Int) * x := Int.mul_nonneg (Int.natCast_nonneg _) lowX
    have place : (f.place x y z).toNat = (y + f.ny * x).toNat * f.nz + z.toNat := by
      have same : f.place x y z = (((y + f.ny * x).toNat * f.nz + z.toNat : Nat) : Int) := by
        rw [Field.place]
        push_cast
        rw [Int.toNat_of_nonneg (by omega), Int.toNat_of_nonneg lowZ]
        ring
      rw [same, Int.toNat_natCast]
    rw [value, (withData_ok taken).1, alike.place, List.getElem?_toArray, List.flatMap_def, place,
      getElem?_flatten_uniform parts (by omega), List.getElem?_map]
    cases columns[(y + f.ny * x).toNat]? with
    | none => rfl
    | some v => simp [show z.toNat < f.nz by omega]
  intro x y z z' has has'
  rw [point has, point has']

end Field

theorem Field.level_const {α : Type} [Scalar α] {f : Field α} {nx ny nz : Int} {v : α} {loc : Location}
    (made : Field.const nx ny nz v (.real loc) = .ok f) : f.extents = ⟨nx, ny, nz⟩ ∧ (f.Fits → f.Level) := by
  unfold Field.const at made
  split at made
  · cases made
  next positive =>
    simp only [Placement.orElse] at made
    split at made
    · cases made
      refine ⟨?_, fun fits => ?_⟩
      · simp only [extents, Extents.mk.injEq]
        omega
      · have filled := level_fill fits v
        simpa only [fill, map, Array.map_replicate] using filled
    · cases made

/-- What is read from a grid is constant in z. -/
theorem Mesh.getField_level {α : Type} [Scalar α] {m : Mesh α} {name : String} {dflt : α} {f : Field α} {e : Option Error}
    (read : m.getField name dflt = .ok (f, e)) : f.extents = m.extents ∧ (f.Fits → f.Level) := by
  obtain ⟨blank, made, read⟩ := Outcome.bind_eq_ok.mp read
  have blankLevel := Field.level_const made
  split at read
  · cases read
    exact blankLevel
  · split at read
    · cases read
      exact ⟨blankLevel.1, fun fits => Field.level_fill (f := blank) fits _⟩
    · split at read
      · cases read
        exact blankLevel
      · obtain ⟨_, checked, read⟩ := Outcome.bind_eq_ok.mp read
        obtain ⟨columns, -, read⟩ := Outcome.bind_eq_ok.mp read
        obtain ⟨g, taken, read⟩ := Outcome.bind_eq_ok.mp read
        cases read
        have alike := (Field.withData_ok taken).2
        exact ⟨alike.extents.trans blankLevel.1, fun fits => Field.level_of_columns (alike.symm.fits fits) taken⟩

namespace Field
variable {f g : Field ℝ}

theorem Level.halfStep (level : f.Level) (fits : f.Fits) {axis : Axis} {toLow : Bool} {target : Location}
    (moved : f.halfStep axis toLow target = .ok g) : g.Level := by
  obtain ⟨r, made, alike, values⟩ := halfStep_values fits axis toLow target
  cases made.symm.trans moved
  intro x y z z' has has'
  have here : f.HasPoint x y z := alike.hasPoint.mp has
  have there : f.HasPoint x y z' := alike.hasPoint.mp has'
  rw [values x y z here, values x y z' there]
  have weighted (i : Int) (low : 0 ≤ i) (high : i < f.axisSize axis) :=
    Exact.averages_stepped (decide (axis = .z)) toLow low high
  obtain ⟨⟨⟨lowX, highX⟩, lowY, highY⟩, lowZ, highZ⟩ := here
  have same {x y : Int} (column : f.HasColumn x y) : f.value x y z = f.value x y z' :=
    level x y z z' ⟨column, lowZ, highZ⟩ ⟨column, there.2⟩
  cases axis with
  | x =>
    obtain ⟨w, within, -, average⟩ := weighted x lowX highX
    refine (average _).trans (Eq.trans (Exact.around_congr fun j counts => ?_) (average _).symm)
    exact same ⟨(within j counts).resolve_left (by decide), lowY, highY⟩
  | y =>
    obtain ⟨w, within, -, average⟩ := weighted y lowY highY
    refine (average _).trans (Eq.trans (Exact.around_congr fun j counts => ?_) (average _).symm)
    exact same ⟨⟨lowX, highX⟩, (within j counts).resolve_left (by decide)⟩
  | z =>
    -- along z there is only one value
    have line (z : Int) : f.along .z x y z = fun _ => f.value x y 0 := by
      funext j
      have points : (0 : Int) < f.nz := by omega
      exact level x y _ 0 ⟨⟨⟨lowX, highX⟩, lowY, highY⟩, Int.emod_nonneg _ points.ne', Int.emod_lt_of_pos _ points⟩
        ⟨⟨⟨lowX, highX⟩, lowY, highY⟩, le_refl 0, points⟩
    have flat {z : Int} (low : 0 ≤ z) (high : z < f.nz) :
        stepped (fun _ => f.value x y 0) (decide (Axis.z = .z)) toLow (f.axisSize .z) z = f.value x y 0 := by
      obtain ⟨w, -, whole, average⟩ := weighted z low high
      refine (average _).trans ?_
      rw [Exact.around_const, whole, mul_one]
    rw [line, line, Axis.coordinate, Axis.coordinate, flat lowZ highZ, flat there.2.1 there.2.2]

theorem Level.interpolate (level : f.Level) (fits : f.Fits) {target : Location}
    (moved : f.interpolate (.real target) = .ok g) : g.Level := by
  rw [interpolate_eq] at moved
  generalize f.loc.route target = steps at moved
  induction steps generalizing f with
  | nil =>
    cases moved
    exact level
  | cons step rest ih =>
    rw [List.foldlM_cons] at moved
    obtain ⟨middle, first, moved⟩ := Outcome.bind_eq_ok.mp moved
    exact ih (level.halfStep fits first) ((halfStep_alike first).fits fits) moved

end Field

end HaloMesh
