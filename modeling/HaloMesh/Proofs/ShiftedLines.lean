import HaloMesh.Proofs.CircleSums
import HaloMesh.Proofs.AlikeFields
import HaloMesh.Proofs.ExactArithmetic
import HaloMesh.Proofs.LineMeans

/-! Lines of a shifted grid in exact arithmetic. Every point of a shifted line is the sum of the pulses around all points
of the line as it was, and this tells what two shifts against each other leave of it. -/

namespace HaloMesh
open Exact (phase phase_add phase_sub copies pulse alternating)
open Finset (range)
open Real (cos sin pi)

namespace Modes

/-- Lines are taken apart into their modes and put together again as the sums over all points and modes say, in whatever
way this is worked out. -/
def Sums (transform : Nat → Outcome (Modes ℝ)) : Prop := ∀ n, 0 < n → ∃ t, transform n = .ok t ∧ t.points = n ∧
  (∀ line : Array ℝ, line.size = n → t.coefficients line = (direct n).coefficients line) ∧
    ∀ modes, modes.length = n / 2 + 1 → t.sequence modes = (direct n).sequence modes

variable {n : Nat}

private theorem sum_list_range (n : Nat) (g : Nat → ℝ) : ((List.range n).map g).sum = ∑ k ∈ range n, g k := rfl

/-- Whole turns do not matter. -/
theorem turn_eq (some_ : 0 < n) (k j : Nat) : (turn n k j : Complex ℝ) = ⟨cos (phase n k j), sin (phase n k j)⟩ := by
  have positive : (n : ℝ) ≠ 0 := by exact_mod_cast some_.ne'
  have split : phase n k j = (angle n (k * j % n) : ℝ) + ((k * j / n : Nat) : Int) * ((2 : Nat) * pi) := by
    have whole : (k : ℝ) * j = (k * j % n : Nat) + n * (k * j / n : Nat) := by
      exact_mod_cast (Nat.mod_add_div (k * j) n).symm
    have left : (angle n (k * j % n) : ℝ) = (2 : Nat) * pi * (k * j % n : Nat) / n := by
      rw [← Exact.ofNat_eq]
      rfl
    rw [left, phase, mul_assoc ((2 : Nat) * pi), whole, Int.cast_natCast]
    field_simp
  rw [split, Nat.cast_ofNat, Real.cos_add_int_mul_two_pi, Real.sin_add_int_mul_two_pi]
  rfl

/-- Complex numbers add up by parts. -/
theorem foldl_add (items : List Nat) (part : Nat → Complex ℝ) (s : Complex ℝ) : items.foldl (fun s j => s + part j) s =
    ⟨s.re + (items.map fun j => (part j).re).sum, s.im + (items.map fun j => (part j).im).sum⟩ := by
  induction items generalizing s with
  | nil => simp
  | cons j rest ih =>
    rw [List.foldl_cons, ih]
    simp only [List.map_cons, List.sum_cons, ← add_assoc]
    rfl

theorem mul_eq (a b : Complex ℝ) : a * b = ⟨a.re * b.re - a.im * b.im, a.re * b.im + a.im * b.re⟩ := rfl

theorem amplitude_eq (some_ : 0 < n) (line : Array ℝ) (k : Nat) : amplitude n line k =
    ⟨∑ m ∈ range n, line.getD m 0 * cos (phase n k m), ∑ m ∈ range n, line.getD m 0 * -sin (phase n k m)⟩ := by
  have part (m : Nat) : Complex.ofScalar (line.getD m 0) * (turn n k m).conj =
      ⟨line.getD m 0 * cos (phase n k m), line.getD m 0 * -sin (phase n k m)⟩ := by
    rw [turn_eq some_, mul_eq]
    simp only [Complex.ofScalar, Complex.conj, Exact.zero_eq, zero_mul, sub_zero, add_zero]
  rw [amplitude, foldl_add]
  simp only [part, sum_list_range, Exact.zero_eq, zero_add]

theorem zipIdx_map_range {β : Type} (g : Nat → β) (count : Nat) :
    ((List.range count).map g).zipIdx = (List.range count).map fun k => (g k, k) := by
  apply List.ext_getElem
  · simp
  · simp

theorem value_eq (some_ : 0 < n) (modes : Nat → Complex ℝ) (count j : Nat) : value n ((List.range count).map modes) j =
    ∑ k ∈ range count, if k = 0 ∨ 2 * k = n then (modes k).re * cos (phase n k j)
      else (2 : Nat) * ((modes k).re * cos (phase n k j) - (modes k).im * sin (phase n k j)) := by
  have step (s : ℝ) (k : Nat) : (if isReal n k then s + (modes k).re * (turn n k j).re
      else s + @OfNat.ofNat ℝ 2 (Scalar.instOfNatScalar 2) * (modes k * turn n k j).re) =
        s + if k = 0 ∨ 2 * k = n then (modes k).re * cos (phase n k j)
          else (2 : Nat) * ((modes k).re * cos (phase n k j) - (modes k).im * sin (phase n k j)) := by
    rw [turn_eq some_, mul_eq, Exact.ofNat_eq]
    by_cases own : k = 0 ∨ 2 * k = n
    · rw [if_pos own, if_pos (by simpa [isReal] using own)]
    · rw [if_neg own, if_neg (by simpa [isReal] using own)]
  rw [value, zipIdx_map_range, List.foldl_map]
  simp only [step]
  rw [Exact.foldl_add, sum_list_range, Exact.zero_eq, zero_add]

theorem shiftFactor_eq (some_ : 0 < n) (k : Nat) (fraction : ℝ) : shiftFactor n k fraction = if 2 * k = n then
    ⟨cos (phase n k (n * fraction)) / n, 0⟩
    else ⟨cos (phase n k (n * fraction)) / n, sin (phase n k (n * fraction)) / n⟩ := by
  have positive : (n : ℝ) ≠ 0 := by exact_mod_cast some_.ne'
  have turned : (@OfNat.ofNat ℝ 2 (Scalar.instOfNatScalar 2) * pi * ((k : Int) : ℝ) * fraction : ℝ) = phase n k (n * fraction) := by
    rw [Exact.ofNat_eq, phase, Int.cast_natCast]
    field_simp
  rw [← turned, ← Exact.zero_eq, ← Int.cast_natCast n]
  rfl

/-- A shifted line takes at each point what the pulses around the points of the line have there. -/
theorem getElem?_shift (some_ : 0 < n) (line : Array ℝ) (fraction : ℝ) {j : Nat} (inside : j < n) :
    ((direct n).shift line fraction)[j]? = some (∑ m ∈ range n, line.getD m 0 * pulse n (j - m + n * fraction)) := by
  have positive : (n : ℝ) ≠ 0 := by exact_mod_cast some_.ne'
  -- what one mode adds at the point, with its factor already in it
  have mode (k : Nat) : (if k = 0 ∨ 2 * k = n then (amplitude n line k * shiftFactor n k fraction).re * cos (phase n k j)
      else (2 : Nat) * ((amplitude n line k * shiftFactor n k fraction).re * cos (phase n k j) -
        (amplitude n line k * shiftFactor n k fraction).im * sin (phase n k j))) =
      ∑ m ∈ range n, line.getD m 0 * (copies n k * cos (phase n k (j - m + n * fraction)) / n) := by
    have turned (m : Nat) : cos (phase n k (j - m + n * fraction)) =
        (cos (phase n k j) * cos (phase n k m) + sin (phase n k j) * sin (phase n k m)) * cos (phase n k (n * fraction)) -
          (sin (phase n k j) * cos (phase n k m) - cos (phase n k j) * sin (phase n k m)) * sin (phase n k (n * fraction)) := by
      rw [phase_add, phase_sub, Real.cos_add, Real.cos_sub, Real.sin_sub]
    rw [amplitude_eq some_, shiftFactor_eq some_]
    simp only [mul_eq, turned]
    by_cases own : k = 0 ∨ 2 * k = n
    · have real : (if 2 * k = n then (⟨cos (phase n k (n * fraction)) / n, 0⟩ : Complex ℝ)
          else ⟨cos (phase n k (n * fraction)) / n, sin (phase n k (n * fraction)) / n⟩).re =
            cos (phase n k (n * fraction)) / n := by
        split <;> rfl
      simp only [if_pos own, copies, real, Exact.sin_phase_own own, neg_zero, mul_zero, Finset.sum_const_zero, zero_mul,
        sub_zero, add_zero]
      rw [Finset.sum_mul, Finset.sum_mul]
      refine Finset.sum_congr rfl fun m _ => ?_
      ring
    · have apart : ¬ 2 * k = n := fun same => own (.inr same)
      simp only [if_neg own, if_neg apart, copies]
      simp only [Finset.sum_mul, Finset.mul_sum, ← Finset.sum_sub_distrib, ← Finset.sum_add_distrib]
      refine Finset.sum_congr rfl fun m _ => ?_
      ring
  have listed : ((direct n).shift line fraction).toList = (List.range n).map (value n ((List.range (n / 2 + 1)).map fun k =>
      amplitude n line k * shiftFactor n k fraction)) := by
    simp only [shift, direct, zipIdx_map_range, List.map_map]
    rfl
  rw [← Array.getElem?_toList, listed, List.getElem?_map, List.getElem?_range inside, Option.map_some,
    value_eq some_]
  simp only [mode]
  rw [Finset.sum_comm]
  congr 1
  refine Finset.sum_congr rfl fun m _ => ?_
  rw [← Finset.mul_sum, pulse, Finset.sum_div]

/-- The transform written out is one. -/
theorem sums_direct : Sums fun n => if n = 0 then Outcome.outOfRange else .ok (direct n) := fun n some_ =>
  ⟨direct n, if_neg some_.ne', rfl, fun _ _ => rfl, fun _ _ => rfl⟩

theorem Sums.shift {transform : Nat → Outcome (Modes ℝ)} (sums : Sums transform) (some_ : 0 < n) : ∃ t, transform n = .ok t ∧
    ∀ line : Array ℝ, line.size = n → ∀ fraction, t.shift line fraction = (direct n).shift line fraction := by
  obtain ⟨t, made, points, apart, together⟩ := sums n some_
  refine ⟨t, made, fun line size fraction => ?_⟩
  rw [Modes.shift, apart line size, points, together _ (by simp [direct])]
  rfl

end Modes

namespace Field

variable {α : Type} {f : Field α} {x y : Int}

theorem zLine_eq (fits : f.Fits) (has : f.HasColumn x y) : f.zLine x y = .ok (f.line x y).toArray := by
  obtain ⟨place, start, stop, -⟩ := exists_start fits has
  rw [zLine, line_of_start start, start, if_pos (by omega), Array.toArray_toList, Int.toNat_natCast]

theorem getD_line [Scalar α] (fits : f.Fits) (has : f.HasColumn x y) {z : Nat} (inside : z < f.nz) :
    (f.line x y).toArray.getD z 0 = f.value x y z := by
  have point := getElem?_line fits (⟨has, by omega, by omega⟩ : f.HasPoint x y z)
  rw [Array.getD_eq_getD_getElem?, List.getElem?_toArray, ← Int.toNat_natCast z, point, Int.toNat_natCast]
  rfl

/-- The line of a column turned by the angle there. -/
noncomputable def turnedLine (t : Modes ℝ) (zLength : ℝ) (angle : Nat → Nat → ℝ) (x y : Int) (line : List ℝ) : List ℝ :=
  if angle x.toNat y.toNat = 0 then line else (t.shift line.toArray (angle x.toNat y.toNat / zLength)).toList

theorem shift_column {f : Field ℝ} (fits : f.Fits) {t : Modes ℝ} {zLength : ℝ} {angle : Nat → Nat → ℝ} {c : Nat × Nat}
    (has : f.HasColumn c.1 c.2)
    (length : ∀ line : List ℝ, line.length = f.nz → ∀ fraction, (t.shift line.toArray fraction).toList.length = f.nz) :
    ∃ g, (if Scalar.same (angle c.1 c.2) (Scalar.ofInt 0) then pure f else f.zLine c.1 c.2 >>= fun line =>
        pure (f.setLine c.1 c.2 (t.shift line (angle c.1 c.2 / zLength)).toList)) = Except.ok g ∧ Alike f g ∧
      ∀ x y, f.HasColumn x y →
        g.line x y = if x = c.1 ∧ y = c.2 then turnedLine t zLength angle x y (f.line x y) else f.line x y := by
  by_cases still : angle c.1 c.2 = 0
  · refine ⟨f, if_pos (by simpa [Scalar.same, Scalar.ofInt] using still), .refl f, fun x y _ => ?_⟩
    split
    next same =>
      obtain ⟨rfl, rfl⟩ := same
      exact (if_pos still).symm
    next => rfl
  · refine ⟨f.setLine c.1 c.2 (t.shift (f.line c.1 c.2).toArray (angle c.1 c.2 / zLength)).toList, ?_, setLine_alike ..,
      fun x y has' => ?_⟩
    · rw [if_neg (by simpa [Scalar.same, Scalar.ofInt] using still), zLine_eq fits has]
      rfl
    · rw [line_setLine fits has has' (length _ (length_line fits has) _)]
      split
      next same =>
        obtain ⟨rfl, rfl⟩ := same
        exact (if_neg still).symm
      next => rfl

/-- A shifted field takes at each point what the pulses around the points of its line have there. -/
theorem shiftZ_values {transform : Nat → Outcome (Modes ℝ)} (sums : Modes.Sums transform) {f : Field ℝ} (fits : f.Fits)
    (deep : 0 < f.nz) (zLength : ℝ) (angle : Nat → Nat → ℝ) :
    ∃ g, f.shiftZBy transform zLength angle = .ok g ∧ Alike f g ∧ ∀ x y z : Nat, f.HasPoint x y z →
      g.value x y z = ∑ m ∈ range f.nz, f.value x y m * pulse f.nz (z - m + f.nz * (angle x y / zLength)) := by
  unfold shiftZBy
  by_cases single : f.nz = 1
  · refine ⟨f, if_pos single, .refl f, fun x y z has => ?_⟩
    obtain rfl : z = 0 := by have := has.2; omega
    rw [single, Finset.sum_range_one, Exact.pulse_one, mul_one]
  obtain ⟨t, made, shifts⟩ := sums.shift deep
  let columns := (List.range f.nx).flatMap fun x => (List.range f.ny).map fun y => (x, y)
  let place (c : Nat × Nat) : Int × Int := (c.1, c.2)
  have mem_columns (c : Nat × Nat) : c ∈ columns ↔ c.1 < f.nx ∧ c.2 < f.ny := by
    obtain ⟨x, y⟩ := c
    simp [columns]
  have nodup : (columns.map place).Nodup := by
    refine List.Nodup.map (fun c d same => ?_) (List.nodup_range.product List.nodup_range)
    exact Prod.ext (Int.ofNat_inj.mp (congrArg Prod.fst same)) (Int.ofNat_inj.mp (congrArg Prod.snd same))
  have within (c : Nat × Nat) (member : c ∈ columns) : f.HasColumn c.1 c.2 := by
    obtain ⟨inX, inY⟩ := (mem_columns c).mp member
    exact ⟨⟨by omega, by omega⟩, by omega, by omega⟩
  have length (line : List ℝ) (size : line.length = f.nz) (a : ℝ) : (t.shift line.toArray a).toList.length = f.nz := by
    rw [shifts _ (by simpa using size)]
    simp [Modes.shift, Modes.direct]
  obtain ⟨g, folded, alike, lines⟩ := Block.foldlM_columns place (turnedLine t zLength angle) columns nodup
    (fun c _ h room points has => shift_column room has fun line size fraction =>
      (length line (size.trans points) fraction).trans points.symm) f fits rfl within
  refine ⟨g, ?_, alike, fun x y z has => ?_⟩
  · rw [if_neg single, checkFits, if_pos fits, made]
    exact folded
  have inside : z < f.nz := by have := has.2; omega
  have member : ((x : Int), (y : Int)) ∈ columns.map place :=
    List.mem_map.mpr ⟨(x, y), (mem_columns _).mpr (by have := has.1.1; have := has.1.2; omega), rfl⟩
  have point := getElem?_line (alike.fits fits) (alike.hasPoint.mpr has)
  rw [lines x y has.1, if_pos member] at point
  simp only [turnedLine, Int.toNat_natCast] at point
  split at point
  next still =>
    rw [← Int.toNat_natCast z, getElem?_line fits has] at point
    have moved (m : Nat) : (z : ℝ) - m + f.nz * (angle x y / zLength) = ((z - m : Int) : ℝ) := by
      rw [still, zero_div, mul_zero, add_zero]
      push_cast
      rfl
    simp only [moved]
    rw [Exact.sum_mul_pulse (fun m => f.value x y m) inside]
    exact (Option.some.inj point).symm
  next turned =>
    rw [shifts _ (by simpa using length_line fits has.1), Array.getElem?_toList, Modes.getElem?_shift deep _ _ inside] at point
    rw [← Option.some.inj point]
    refine Finset.sum_congr rfl fun m below => ?_
    rw [← getD_line fits has.1 (Finset.mem_range.mp below), Exact.zero_eq]

end Field

/-- The shifts are those of the first plane of the field they are taken from. -/
theorem ShiftedMetric.make_values {zShift : Field ℝ} {zLength : ℝ} (long : 0 < zLength) (fits : zShift.Fits)
    (deep : 0 < zShift.nz) : ∃ metric : ShiftedMetric ℝ, ShiftedMetric.make zShift zLength = .ok metric ∧
      metric.extents = zShift.extents ∧ metric.zLength = zLength ∧
      ∀ x y : Nat, zShift.HasColumn x y → metric.zShift[y + zShift.ny * x]? = some (zShift.value x y 0) := by
  have positive : ¬ Scalar.le zLength (Scalar.ofInt 0) := by simpa [Scalar.le, Scalar.ofInt] using long
  let shifts := (List.range zShift.nx).map fun x : Nat => (List.range zShift.ny).map fun y : Nat => zShift.value x y 0
  refine ⟨⟨zShift.extents, zLength, shifts.flatten.toArray⟩, ?_, rfl, rfl, fun x y has => ?_⟩
  · have read : ((List.range zShift.nx).flatMap fun x => (List.range zShift.ny).map fun y => (x, y)).mapM
        (fun c : Nat × Nat => zShift.get c.1 c.2 0) = .ok shifts.flatten := by
      have listed : shifts.flatten = ((List.range zShift.nx).flatMap fun x => (List.range zShift.ny).map fun y => (x, y)).map
          fun c : Nat × Nat => zShift.value c.1 c.2 0 := by
        simp only [shifts, List.map_flatMap, List.map_map, List.flatten_eq_flatMap, List.flatMap_map]
        rfl
      rw [listed]
      refine mapM_ok fun c member => ?_
      obtain ⟨x, inX, y, inY, rfl⟩ : ∃ x < zShift.nx, ∃ y < zShift.ny, (x, y) = c := by simpa using member
      exact Field.get_eq fits ⟨⟨⟨by omega, by omega⟩, by omega, by omega⟩, by omega, by omega⟩
    refine (if_neg positive).trans ?_
    exact Outcome.bind_eq_ok.mpr ⟨(), if_pos fits, Outcome.bind_eq_ok.mpr ⟨shifts.flatten, read, rfl⟩⟩
  · obtain ⟨⟨-, inX⟩, -, inY⟩ := has
    have sizes : ∀ part ∈ shifts, part.length = zShift.ny := by simp [shifts]
    have place := getElem?_flatten_uniform sizes (k := x) (show y < zShift.ny by omega)
    rw [List.getElem?_toArray, Nat.add_comm, Nat.mul_comm, place]
    simp [shifts, show x < zShift.nx by omega, show y < zShift.ny by omega]

/-- Lines of odd length come back from the aligned grid as they were. Lines of even length lack some of the part that
changes sign at every point, as only the cosine of its turn is kept on the way there and on the way back. -/
theorem shifted_round_trip {transform : Nat → Outcome (Modes ℝ)} (sums : Modes.Sums transform) {zShift f : Field ℝ}
    {zLength : ℝ} (long : 0 < zLength) (fits : zShift.Fits) (deep : 0 < zShift.nz) (matching : f.extents = zShift.extents)
    (unaligned : f.aligned = false) : ∃ metric aligned back, ShiftedMetric.make zShift zLength = .ok metric ∧
      (ParallelTransform.shifted metric).toAlignedBy transform f = .ok aligned ∧
      (ParallelTransform.shifted metric).fromAlignedBy transform aligned = .ok back ∧ Field.Alike f back ∧
      ∀ x y z : Nat, f.HasPoint x y z → back.value x y z = f.value x y z - if 2 ∣ f.nz then
        sin (pi * (f.nz * (zShift.value x y 0 / zLength))) ^ 2 * ((-1) ^ z * alternating f.nz fun m => f.value x y m)
        else 0 := by
  obtain ⟨metric, made, extents, length, shifts⟩ := ShiftedMetric.make_values long fits deep
  obtain ⟨nx, ny, nz⟩ : f.nx = zShift.nx ∧ f.ny = zShift.ny ∧ f.nz = zShift.nz := by
    simpa [Field.extents] using matching
  have room : f.Fits := by simpa [Field.Fits, nx, ny, nz] using fits
  have thick : 0 < f.nz := nz ▸ deep
  let angle (sign : ℝ) (x y : Nat) : ℝ := sign * (metric.zShift[y + f.ny * x]?).getD (Scalar.ofInt 0)
  have angle_eq (sign : ℝ) {x y : Nat} (has : f.HasColumn x y) : angle sign x y = sign * zShift.value x y 0 := by
    have known := shifts x y (by simpa [Field.HasColumn, nx, ny] using has)
    simp only [angle, ny, known, Option.getD_some]
  obtain ⟨there, turned, alike, moved⟩ := f.shiftZ_values sums room thick metric.zLength (angle (-Scalar.ofInt 1))
  obtain ⟨back, returned, alike', moved'⟩ := (there.setAligned true).shiftZ_values sums (alike.fits room)
    (alike.nz.symm ▸ thick) metric.zLength (angle (Scalar.ofInt 1))
  refine ⟨metric, there.setAligned true, back.setAligned false, made, ?_, ?_, ?_, fun x y z has => ?_⟩
  · have aligned : ¬ f.aligned = true := by simp [unaligned]
    have shape : ¬ f.extents ≠ metric.extents := by rw [extents, matching, not_not]
    have shifted : metric.shiftBy transform f (-Scalar.ofInt 1) = .ok there := (if_neg shape).trans turned
    exact (if_neg aligned).trans (congrArg (fun o : Outcome (Field ℝ) => o >>= fun r => pure (r.setAligned true)) shifted)
  · have shape : ¬ (there.setAligned true).extents ≠ metric.extents := by
      rw [extents, ← matching, ← alike.extents, not_not]
      rfl
    have shifted : metric.shiftBy transform (there.setAligned true) (Scalar.ofInt 1) = .ok back := by
      refine (if_neg shape).trans ?_
      have same : (there.setAligned true).ny = f.ny := alike.ny
      rw [same]
      exact returned
    exact congrArg (fun o : Outcome (Field ℝ) => o >>= fun r => pure (r.setAligned false)) shifted
  · exact ⟨alike'.nx.trans alike.nx, alike'.ny.trans alike.ny, alike'.nz.trans alike.nz, alike'.size.trans alike.size,
      alike'.loc.trans alike.loc, unaligned.symm⟩
  · have inside : z < f.nz := by have := has.2; omega
    have one : (Scalar.ofInt 1 : ℝ) = 1 := Int.cast_one
    have first (l : Nat) (below : l ∈ range f.nz) : (there.setAligned true).value x y l =
        ∑ m ∈ range f.nz, f.value x y m * pulse f.nz (l - m - f.nz * (zShift.value x y 0 / zLength)) := by
      have here : f.HasPoint x y l := ⟨has.1, by omega, by have := Finset.mem_range.mp below; omega⟩
      refine (moved x y l here).trans (Finset.sum_congr rfl fun m _ => ?_)
      rw [angle_eq _ has.1, length, one, neg_one_mul, neg_div, mul_neg, ← sub_eq_add_neg]
    calc back.value x y z
        = ∑ l ∈ range f.nz, (there.setAligned true).value x y l *
            pulse f.nz (z - l + f.nz * (zShift.value x y 0 / zLength)) := by
          have second := moved' x y z (alike.hasPoint.mpr has)
          rw [show (there.setAligned true).nz = f.nz from alike.nz, angle_eq _ has.1, length, one, one_mul] at second
          exact second
      _ = _ := by
          rw [Finset.sum_congr rfl fun l below => congrArg (· * _) (first l below)]
          exact Exact.sum_sum_pulses thick (fun m => f.value x y m) _ inside

/-- One column of two points. -/
def twoPoints (a b : ℝ) : Field ℝ := ⟨1, 1, 2, #[a, b], .centre, false, by
  change ((2 : Nat) : Int) = _
  decide⟩

/-- A quarter turn there and back leaves nothing of a line whose two values are opposite. -/
theorem quarter_turn_loses_line : ∃ metric aligned back, ShiftedMetric.make (twoPoints 1 1) (4 : Nat) = .ok metric ∧
    (ParallelTransform.shifted metric).toAlignedBy (fun n => if n = 0 then Outcome.outOfRange else .ok (Modes.direct n))
      (twoPoints 1 (-1)) = .ok aligned ∧
    (ParallelTransform.shifted metric).fromAlignedBy (fun n => if n = 0 then Outcome.outOfRange else .ok (Modes.direct n))
      aligned = .ok back ∧ Field.Alike (twoPoints 1 (-1)) back ∧
    (twoPoints 1 (-1)).value 0 0 0 = 1 ∧ (twoPoints 1 (-1)).value 0 0 1 = -1 ∧ back.value 0 0 0 = 0 ∧ back.value 0 0 1 = 0 := by
  obtain ⟨metric, aligned, back, made, there, returned, alike, values⟩ := shifted_round_trip Modes.sums_direct
    (show (0 : ℝ) < (4 : Nat) by norm_num) (show (twoPoints 1 1).Fits by decide) (show 0 < (twoPoints 1 1).nz by decide)
    (show (twoPoints 1 (-1)).extents = (twoPoints 1 1).extents from rfl) rfl
  have first : (twoPoints 1 (-1)).value 0 0 0 = 1 := rfl
  have second : (twoPoints 1 (-1)).value 0 0 1 = -1 := rfl
  have shift : (twoPoints 1 1).value 0 0 0 = 1 := rfl
  have quarter : sin (pi * ((2 : Nat) * (1 / (4 : Nat)))) = 1 := by
    refine (congrArg sin ?_).trans Real.sin_pi_div_two
    push_cast
    ring
  have whole : alternating 2 (fun m => (twoPoints 1 (-1)).value 0 0 m) = 1 := by
    rw [alternating, Finset.sum_range_succ, Finset.sum_range_one, Nat.cast_zero, Nat.cast_one, first, second]
    norm_num
  have left (z : Nat) (inside : z < 2) : back.value 0 0 z = (twoPoints 1 (-1)).value 0 0 z - (-1) ^ z := by
    have point := values 0 0 z ⟨⟨⟨le_rfl, by decide⟩, le_rfl, by decide⟩, by omega, by exact_mod_cast inside⟩
    rw [if_pos (show 2 ∣ (twoPoints 1 (-1)).nz by decide)] at point
    simp only [Nat.cast_zero, shift, show (twoPoints 1 (-1)).nz = 2 from rfl, quarter, whole, one_pow, one_mul, mul_one] at point
    exact point
  refine ⟨metric, aligned, back, made, there, returned, alike, first, second, ?_, ?_⟩
  · exact (left 0 (by decide)).trans (by rw [Nat.cast_zero, first, pow_zero, sub_self])
  · exact (left 1 (by decide)).trans (by rw [Nat.cast_one, second, pow_one, sub_self])

end HaloMesh
