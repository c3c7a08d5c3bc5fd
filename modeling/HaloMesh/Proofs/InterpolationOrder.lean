import HaloMesh.Proofs.FormalOrder
import HaloMesh.Proofs.OffAxisDerivative
import HaloMesh.Proofs.PointwiseDerivatives

/-! How exact interpolation is. A half step along an axis with ends gives cubic polynomials where it has four points,
straight lines where it has two, and keeps the value at the very end. Along z lines wrap and there is no end. All of
this only takes points of the line itself. -/

namespace HaloMesh

open Polynomial

/-! Midpoints of polynomials. -/

namespace Kernel

theorem midpoint4_exact {p : ℝ[X]} (low : p.natDegree ≤ 3) (x : ℝ) :
    midpoint4 (p.eval (x + ((-1 : Int) - 1 / 2))) (p.eval (x + ((0 : Int) - 1 / 2))) (p.eval (x + ((1 : Int) - 1 / 2)))
      (p.eval (x + ((2 : Int) - 1 / 2))) = p.eval x := by
  have here := eval_expansion low x 0
  rw [add_zero] at here
  rw [Exact.midpoint4_eq, here]
  simp only [eval_expansion low x, expansion, Finset.sum_range_succ, Finset.sum_range_zero]
  push_cast
  ring

theorem midpoint2_exact {p : ℝ[X]} (low : p.natDegree ≤ 1) (x : ℝ) :
    1 / 2 * (p.eval (x + ((0 : Int) - 1 / 2)) + p.eval (x + ((1 : Int) - 1 / 2))) = p.eval x := by
  have here := eval_expansion low x 0
  rw [add_zero] at here
  rw [here]
  simp only [eval_expansion low x, expansion, Finset.sum_range_succ, Finset.sum_range_zero]
  push_cast
  ring

end Kernel

/-! Reading. -/

section Reading

variable {α : Type}

namespace Field

variable [Scalar α]

theorem between_congr {get get' : Int → Outcome α} {periodic : Bool} {n : Int}
    (same : ∀ j, periodic = true ∨ 0 ≤ j ∧ j < n → get j = get' j) (a : Int) :
    between get periodic n a = between get' periodic n a := by
  unfold between
  by_cases wide : periodic = true ∨ (0 ≤ a - 1 ∧ a + 2 < n)
  · have inside (j : Int) (low : a - 1 ≤ j) (high : j ≤ a + 2) : periodic = true ∨ 0 ≤ j ∧ j < n :=
      wide.imp_right fun _ => by omega
    rw [if_pos wide, if_pos wide, same _ (inside (a - 1) (by omega) (by omega)), same _ (inside a (by omega) (by omega)),
      same _ (inside (a + 1) (by omega) (by omega)), same _ (inside (a + 2) (by omega) (by omega))]
  · rw [if_neg wide, if_neg wide]
    by_cases narrow : 0 ≤ a ∧ a + 1 < n
    · rw [if_pos narrow, if_pos narrow, same a (.inr (by omega)), same (a + 1) (.inr (by omega))]
    · rw [if_neg narrow, if_neg narrow]

/-- A half step by a given way to read the point with an index on the line from a base on. -/
def halfStepBy (f : Field α) (axis : Axis) (toLow : Bool) (target : Location) (read : Int → Int → Outcome α) :
    Outcome (Field α) := do
  if f.axisSize axis = 1 then return f.retag target
  f.checkFits
  let lines := (f.lineBases axis).map fun base => (⟨base, 0, f.axisSize axis - 1⟩ : LineSpan)
  let first : Int := if toLow then -1 else 0
  (f.retag target).withData (← sweep (f.stride axis) lines
    (fun base i => between (read base) (decide (axis = .z)) (f.axisSize axis) (i + first)) f.data)

theorem halfStep_eq_by (f : Field α) (axis : Axis) (toLow : Bool) (target : Location) :
    f.halfStep axis toLow target =
      f.halfStepBy axis toLow target fun base => (f.reader axis).read f.data base := by
  simp only [halfStep, halfStepBy, reader, decide_eq_true_eq]

instance (f : Field α) (axis : Axis) (j : Int) : Decidable (f.Reads axis j) := inferInstanceAs (Decidable (_ ∨ _))

/-- Reads a line, and fails beyond its ends. -/
def readWithin (f : Field α) (axis : Axis) (base j : Int) : Outcome α :=
  if f.Reads axis j then (f.reader axis).read f.data base j else Outcome.outOfRange

theorem halfStep_eq_within (f : Field α) (axis : Axis) (toLow : Bool) (target : Location) :
    f.halfStep axis toLow target = f.halfStepBy axis toLow target (f.readWithin axis) := by
  have same (base a : Int) : between ((f.reader axis).read f.data base) (decide (axis = .z)) (f.axisSize axis) a =
      between (f.readWithin axis base) (decide (axis = .z)) (f.axisSize axis) a :=
    between_congr (fun j inside => (if_pos (inside.imp_left of_decide_eq_true)).symm) a
  rw [halfStep_eq_by]
  simp only [halfStepBy, same]

end Field

end Reading

/-! Polynomials on lines. -/

/-- Where index `j` of a line along an axis lies. Values at a low location lie half a cell below their index. -/
noncomputable def Location.positionAlong (loc : Location) (axis : Axis) (j : Int) : ℝ :=
  if loc = axis.low then j - 1 / 2 else j

/-- The half step along an axis from the centre down, or back up. -/
def Axis.halfStep (axis : Axis) (toLow : Bool) : HalfStep := ⟨axis, toLow, if toLow then axis.low else .centre⟩

namespace HalfStep

variable {axis : Axis} {toLow : Bool} {i n : Int}

/-- Where a half step starts from. -/
def source (step : HalfStep) : Location := if step.toLow then .centre else step.axis.low

/-- The index at the end of a line that a half step leaves alone. -/
def stop (step : HalfStep) (n : Int) : Int := if step.toLow then 0 else n - 1

/-- The indices that a half step gives values from four points of a line with ends. -/
def Inner (step : HalfStep) (n i : Int) : Prop := if step.toLow then 2 ≤ i ∧ i ≤ n - 2 else 1 ≤ i ∧ i ≤ n - 3

/-- The first of the two inputs that an output lies between. -/
def below (step : HalfStep) (i : Int) : Int := i + if step.toLow then -1 else 0

theorem route_eq (axis : Axis) (toLow : Bool) :
    (axis.halfStep toLow).source.route (axis.halfStep toLow).target = [axis.halfStep toLow] := by
  cases toLow <;> cases axis <;> rfl

theorem route_pair {axis axis' : Axis} (apart : axis ≠ axis') :
    axis.low.route axis'.low = [axis.halfStep false, axis'.halfStep true] := by
  cases axis <;> cases axis' <;> first | rfl | exact absurd rfl apart

theorem position_eq (axis : Axis) (toLow : Bool) (i k : Int) :
    (axis.halfStep toLow).source.positionAlong axis ((axis.halfStep toLow).below i + k) =
      (axis.halfStep toLow).target.positionAlong axis i + (k - 1 / 2) := by
  have apart : (.centre : Location) ≠ axis.low := by cases axis <;> decide
  cases toLow <;>
    simp only [Axis.halfStep, source, below, Location.positionAlong, Bool.false_eq_true, ↓reduceIte, apart] <;>
    push_cast <;> ring

end HalfStep

namespace Field

section Ends

variable {axis : Axis} {toLow : Bool} {n i : Int} {line : Int → ℝ}

theorem stepped_stop (ends : i = (axis.halfStep toLow).stop n) : stepped line false toLow n i = line i := by
  have none : midway line false n ((axis.halfStep toLow).below i) = none := by
    subst ends
    unfold midway HalfStep.stop HalfStep.below
    cases toLow <;>
      simp only [Axis.halfStep, Bool.false_eq_true, ↓reduceIte, false_or] <;> rw [if_neg (by omega), if_neg (by omega)]
  simp only [stepped]
  change (if n = 1 then line i else (midway line false n ((axis.halfStep toLow).below i)).getD (line i)) = line i
  rw [none]
  split <;> rfl

variable {p : ℝ[X]}
  (known : ∀ j, 0 ≤ j → j < n → line j = p.eval ((axis.halfStep toLow).source.positionAlong axis j))
include known

theorem known_near {k : Int} (first : 0 ≤ (axis.halfStep toLow).below i + k) (last : (axis.halfStep toLow).below i + k < n) :
    line ((axis.halfStep toLow).below i + k) = p.eval ((axis.halfStep toLow).target.positionAlong axis i + (k - 1 / 2)) := by
  rw [known _ first last, HalfStep.position_eq]

theorem midway_wide (wide : 0 ≤ (axis.halfStep toLow).below i - 1 ∧ (axis.halfStep toLow).below i + 2 < n)
    (low : p.natDegree ≤ 3) : midway line false n ((axis.halfStep toLow).below i) =
      some (p.eval ((axis.halfStep toLow).target.positionAlong axis i)) := by
  have near (k : Int) (first : -1 ≤ k) (last : k ≤ 2) := known_near known (i := i) (k := k) (by omega) (by omega)
  have here := near 0 (by omega) (by omega)
  rw [Int.add_zero] at here
  rw [midway, if_pos (.inr wide), Int.sub_eq_add_neg, near (-1) (by omega) (by omega), here, near 1 (by omega) (by omega),
    near 2 (by omega) (by omega), Kernel.midpoint4_exact low]

theorem midway_narrow (inside : 0 ≤ (axis.halfStep toLow).below i ∧ (axis.halfStep toLow).below i + 1 < n)
    (low : p.natDegree ≤ 1) : midway line false n ((axis.halfStep toLow).below i) =
      some (p.eval ((axis.halfStep toLow).target.positionAlong axis i)) := by
  by_cases wide : 0 ≤ (axis.halfStep toLow).below i - 1 ∧ (axis.halfStep toLow).below i + 2 < n
  · exact midway_wide known wide (by omega)
  · have here := known_near known (i := i) (k := 0) (by omega) (by omega)
    rw [Int.add_zero] at here
    rw [midway, if_neg (by simpa using wide), if_pos inside, here, known_near known (by omega) inside.2, Exact.half_eq,
      Kernel.midpoint2_exact low]

theorem stepped_inner (inner : (axis.halfStep toLow).Inner n i) (low : p.natDegree ≤ 3) :
    stepped line false toLow n i = p.eval ((axis.halfStep toLow).target.positionAlong axis i) := by
  have wide : n ≠ 1 ∧ 0 ≤ (axis.halfStep toLow).below i - 1 ∧ (axis.halfStep toLow).below i + 2 < n := by
    unfold HalfStep.Inner at inner
    unfold HalfStep.below
    cases toLow <;> simp only [Axis.halfStep, Bool.false_eq_true, ↓reduceIte] at inner ⊢ <;> omega
  have found := midway_wide known wide.2 low
  rw [stepped, if_neg wide.1]
  exact congrArg (Option.getD · _) found

theorem stepped_straight (inside : 0 ≤ i ∧ i < n) (apart : i ≠ (axis.halfStep toLow).stop n) (low : p.natDegree ≤ 1) :
    stepped line false toLow n i = p.eval ((axis.halfStep toLow).target.positionAlong axis i) := by
  have narrow : n ≠ 1 ∧ 0 ≤ (axis.halfStep toLow).below i ∧ (axis.halfStep toLow).below i + 1 < n := by
    unfold HalfStep.stop at apart
    unfold HalfStep.below
    cases toLow <;> simp only [Axis.halfStep, Bool.false_eq_true, ↓reduceIte] at apart ⊢ <;> omega
  have found := midway_narrow known narrow.2 low
  rw [stepped, if_neg narrow.1]
  exact congrArg (Option.getD · _) found

end Ends

/-- On a line that wraps, a half step finds four points everywhere. A line of a single point is its own neighbour. -/
theorem stepped_periodic {line : Int → ℝ} {n : Int} (toLow : Bool) (wraps : ∀ j, line j = line (j % n)) (i : Int) :
    stepped line true toLow n i = Kernel.midpoint4 (line ((Axis.halfStep .z toLow).below i - 1))
      (line ((Axis.halfStep .z toLow).below i)) (line ((Axis.halfStep .z toLow).below i + 1))
      (line ((Axis.halfStep .z toLow).below i + 2)) := by
  by_cases single : n = 1
  · have same (j : Int) : line j = line i := by rw [wraps j, wraps i, single, Int.emod_one, Int.emod_one]
    rw [stepped, if_pos single, same (_ - 1), same (_ + 1), same (_ + 2), same ((Axis.halfStep .z toLow).below i),
      Exact.midpoint4_eq]
    ring
  · have found : midway line true n ((Axis.halfStep .z toLow).below i) = some _ := if_pos (.inl rfl)
    rw [stepped, if_neg single]
    exact congrArg (Option.getD · _) found

end Field

/-! Whole fields. -/

/-- What a half step along an axis makes of a field. -/
structure Field.Stepped (f r : Field ℝ) (axis : Axis) (toLow : Bool) : Prop where
  alike : Alike (f.retag (axis.halfStep toLow).target) r
  cubic : axis ≠ .z → ∀ x y z, f.HasPoint x y z → ∀ p : ℝ[X], p.natDegree ≤ 3 →
    (∀ j, 0 ≤ j → j < f.axisSize axis → f.along axis x y z j = p.eval (f.loc.positionAlong axis j)) →
    (axis.halfStep toLow).Inner (f.axisSize axis) (axis.coordinate x y z) →
    r.value x y z = p.eval (r.loc.positionAlong axis (axis.coordinate x y z))
  straight : axis ≠ .z → ∀ x y z, f.HasPoint x y z → ∀ p : ℝ[X], p.natDegree ≤ 1 →
    (∀ j, 0 ≤ j → j < f.axisSize axis → f.along axis x y z j = p.eval (f.loc.positionAlong axis j)) →
    axis.coordinate x y z ≠ (axis.halfStep toLow).stop (f.axisSize axis) →
    r.value x y z = p.eval (r.loc.positionAlong axis (axis.coordinate x y z))
  kept : axis ≠ .z → ∀ x y z, f.HasPoint x y z →
    axis.coordinate x y z = (axis.halfStep toLow).stop (f.axisSize axis) → r.value x y z = f.value x y z
  wraps : axis = .z → ∀ x y z, f.HasPoint x y z → ∀ a, a = (axis.halfStep toLow).below z →
    r.value x y z = Kernel.midpoint4 (f.value x y ((a - 1) % f.nz)) (f.value x y (a % f.nz))
      (f.value x y ((a + 1) % f.nz)) (f.value x y ((a + 2) % f.nz))
  constant : ∀ x y z, f.HasPoint x y z → ∀ c, (∀ j, f.Reads axis j → f.along axis x y z j = c) → r.value x y z = c

/-- A half step only reads points of the line that it works on: it comes to the same if reading fails beyond the ends of
lines, and within them every index stands for a point of the line. -/
structure Field.ReadsLines (f : Field ℝ) (axis : Axis) (toLow : Bool) : Prop where
  within : f.halfStepBy axis toLow (axis.halfStep toLow).target (f.readWithin axis) =
    f.halfStepBy axis toLow (axis.halfStep toLow).target fun base => (f.reader axis).read f.data base
  located : 0 < f.axisSize axis → ∀ base ∈ f.lineBases axis, ∃ x y z, f.HasPoint x y z ∧ base = f.lineBase axis x y z ∧
    ∀ j, f.Reads axis j → f.Locates axis x y z j ((f.reader axis).position base j)

namespace Field

variable {f : Field ℝ} {axis : Axis} {toLow : Bool}

theorem readsLines (fits : f.Fits) (axis : Axis) (toLow : Bool) : f.ReadsLines axis toLow where
  within := by rw [← halfStep_eq_within, halfStep_eq_by]
  located long base member := by
    obtain ⟨x, y, z, has, start, -⟩ := exists_of_mem_lineBases member (le_refl 0) long
    refine ⟨x, y, z, has, start, fun j within => ?_⟩
    obtain ⟨there, place⟩ := position_along has within
    rw [start, place]
    exact ⟨place_range fits there, there, rfl⟩

theorem stepped_of_source (fits : f.Fits) (starts : f.loc = (axis.halfStep toLow).source) :
    ∃ r, f.halfStep axis toLow (axis.halfStep toLow).target = .ok r ∧ f.Stepped r axis toLow := by
  obtain ⟨r, computed, alike, values⟩ := halfStep_values fits axis toLow (axis.halfStep toLow).target
  have loc : r.loc = (axis.halfStep toLow).target := alike.loc
  have inside (x y z : Int) (has : f.HasPoint x y z) : 0 ≤ axis.coordinate x y z ∧ axis.coordinate x y z < f.axisSize axis := by
    obtain ⟨⟨inX, inY⟩, inZ⟩ := has
    cases axis
    · exact inX
    · exact inY
    · exact inZ
  refine ⟨r, computed, alike, ?_, ?_, ?_, ?_, ?_⟩
  · intro open_ x y z has p low known inner
    rw [values x y z has, decide_eq_false open_, loc]
    exact stepped_inner (starts ▸ known) inner low
  · intro open_ x y z has p low known apart
    rw [values x y z has, decide_eq_false open_, loc]
    exact stepped_straight (starts ▸ known) (inside x y z has) apart low
  · intro open_ x y z has ends
    rw [values x y z has, decide_eq_false open_, stepped_stop ends, along_self axis has]
  · rintro rfl x y z has a rfl
    rw [values x y z has]
    exact stepped_periodic toLow
      (fun j => congrArg (f.value x y) (Int.emod_emod_of_dvd j (dvd_refl (f.nz : Int))).symm) z
  · intro x y z has c level
    obtain ⟨s, reads, total, weighted⟩ :=
      Exact.averages_stepped (decide (axis = .z)) toLow (inside x y z has).1 (inside x y z has).2
    have flat : Exact.around s (f.along axis x y z) (axis.coordinate x y z) =
        Exact.around s (fun _ => c) (axis.coordinate x y z) :=
      Exact.around_congr fun j counts => level _ ((reads j counts).imp_left of_decide_eq_true)
    rw [values x y z has]
    refine (weighted _).trans ?_
    rw [flat, Exact.around_const, total, mul_one]

theorem interpolate_single (starts : f.loc = (axis.halfStep toLow).source) :
    f.interpolate (.real (axis.halfStep toLow).target) = f.halfStep axis toLow (axis.halfStep toLow).target := by
  rw [interpolate_eq, starts, HalfStep.route_eq, List.foldlM_cons]
  exact bind_pure _

/-- Between two staggered locations a field goes up to the centre and down again. -/
theorem interpolate_pair {axis' : Axis} (fits : f.Fits) (starts : f.loc = axis.low) (apart : axis ≠ axis') :
    ∃ centred r, f.interpolate (.real .centre) = .ok centred ∧ centred.interpolate (.real axis'.low) = .ok r ∧
      f.interpolate (.real axis'.low) = .ok r := by
  obtain ⟨centred, up, stepped⟩ := stepped_of_source fits (show f.loc = (axis.halfStep false).source from starts)
  have middle : centred.loc = (axis'.halfStep true).source := stepped.alike.loc
  obtain ⟨r, down, -⟩ := stepped_of_source (stepped.alike.fits fits) middle
  refine ⟨centred, r, (interpolate_single starts).trans up, (interpolate_single middle).trans down, ?_⟩
  rw [interpolate_eq, starts, HalfStep.route_pair apart, List.foldlM_cons]
  exact Outcome.bind_eq_ok.mpr ⟨centred, up, (bind_pure _).trans down⟩

end Field

theorem Location.exists_low {loc : Location} (staggered : loc ≠ .centre) : ∃ axis : Axis, loc = axis.low := by
  cases loc with
  | centre => exact absurd rfl staggered
  | xlow => exact ⟨.x, rfl⟩
  | ylow => exact ⟨.y, rfl⟩
  | zlow => exact ⟨.z, rfl⟩

/-- Interpolation is exact to its order. Between two staggered locations it goes through the centre. -/
theorem interpolation_exact {f : Field ℝ} (fits : f.Fits) :
    (∀ axis toLow, f.loc = (Axis.halfStep axis toLow).source → f.ReadsLines axis toLow ∧
      f.interpolate (.real (axis.halfStep toLow).target) =
        f.halfStepBy axis toLow (axis.halfStep toLow).target (fun base => (f.reader axis).read f.data base) ∧
      ∃ r, f.interpolate (.real (axis.halfStep toLow).target) = .ok r ∧ f.Stepped r axis toLow) ∧
    ∀ target, f.loc ≠ .centre → target ≠ .centre → target ≠ f.loc → ∃ centred r,
      f.interpolate (.real .centre) = .ok centred ∧ centred.interpolate (.real target) = .ok r ∧
        f.interpolate (.real target) = .ok r := by
  constructor
  · intro axis toLow starts
    obtain ⟨r, computed, stepped⟩ := Field.stepped_of_source fits starts
    rw [Field.interpolate_single starts]
    exact ⟨Field.readsLines fits axis toLow, f.halfStep_eq_by .., r, computed, stepped⟩
  · intro target staggered staggered' other
    obtain ⟨axis, starts⟩ := Location.exists_low staggered
    obtain ⟨axis', rfl⟩ := Location.exists_low staggered'
    exact Field.interpolate_pair fits starts fun same => other (by rw [starts, same])

/-- The cubes of the columns. -/
noncomputable def cubes : Field ℝ :=
  { nx := 6, ny := 1, nz := 1, data := Array.ofFn fun n : Fin 6 => (n : ℝ) ^ 3, loc := .centre, aligned := false
    data_size := by rw [Array.size_ofFn]; rfl }

theorem cubes_value {x : Int} (low : 0 ≤ x) (high : x < 6) : cubes.value x 0 0 = (x : ℝ) ^ 3 := by
  obtain ⟨n, rfl⟩ := Int.eq_ofNat_of_zero_le low
  have inside : n < 6 := by omega
  have place : (cubes.place n 0 0).toNat = n := by simp [Field.place, cubes]
  rw [Field.value, place]
  simp [cubes, inside]

/-- Down from the centres to the lower faces: four points give the cube, and the first face keeps its value. -/
theorem interpolation_exact_cubes : ∃ r, cubes.interpolate (.real .xlow) = .ok r ∧
    r.value 2 0 0 = (3 / 2) ^ 3 ∧ r.value 0 0 0 = 0 := by
  obtain ⟨-, -, r, moved, stepped⟩ := (interpolation_exact (by decide : cubes.Fits)).1 .x true rfl
  have known (j : Int) (low : 0 ≤ j) (high : j < 6) :
      cubes.along .x 2 0 0 j = (X ^ 3 : ℝ[X]).eval (cubes.loc.positionAlong .x j) := by
    change cubes.value j 0 0 = _
    rw [cubes_value low high, eval_pow, eval_X]
    rfl
  refine ⟨r, moved, ?_, ?_⟩
  · have below : r.loc = .xlow := stepped.alike.loc
    rw [stepped.cubic (by decide) 2 0 0 ⟨⟨by decide, by decide⟩, by decide⟩ (X ^ 3) (natDegree_X_pow_le 3) known
      ⟨by decide, by decide⟩, below, eval_pow, eval_X]
    norm_num [Location.positionAlong, Axis.low, Axis.coordinate]
  · rw [stepped.kept (by decide) 0 0 0 ⟨⟨by decide, by decide⟩, by decide⟩ rfl, cubes_value (by decide) (by decide)]
    norm_num

end HaloMesh
