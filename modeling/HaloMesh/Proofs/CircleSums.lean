import Mathlib.Algebra.BigOperators.Field
import Mathlib.Algebra.BigOperators.Intervals
import Mathlib.Analysis.SpecialFunctions.Trigonometric.Basic

/-! Waves around a circle. Turns in equal steps add up to nothing, so that the waves through the points of a periodic line
are independent, and the one that is zero at all points but the first can be moved between them and back. -/

namespace HaloMesh
open Finset (range)
open Real (cos sin pi)

namespace Exact

/-- Turns in equal steps around the circle add up to nothing, unless all steps are whole turns. -/
theorem sum_cos_turns {n : Nat} (some_ : 0 < n) (q : Int) (c : ℝ) :
    ∑ l ∈ range n, cos (c + 2 * pi * q * l / n) = if (n : Int) ∣ q then n * cos c else 0 := by
  have positive : (0 : ℝ) < n := by exact_mod_cast some_
  split
  next divides =>
    obtain ⟨r, rfl⟩ := divides
    have whole (l : Nat) : cos (c + 2 * pi * ((n * r : Int) : ℝ) * l / n) = cos c := by
      rw [← Real.cos_add_int_mul_two_pi c (r * l)]
      congr 1
      push_cast
      field_simp
    rw [Finset.sum_congr rfl fun l _ => whole l, Finset.sum_const, Finset.card_range, nsmul_eq_mul]
  next apart =>
    -- each term times twice the sine of half a step is a difference of neighbours
    have half : sin (pi * q / n) ≠ 0 := by
      intro vanishes
      obtain ⟨r, same⟩ := Real.sin_eq_zero_iff.mp vanishes
      apply apart
      refine ⟨r, ?_⟩
      have scaled : (r : ℝ) * n = q := by
        have := mul_right_cancel₀ Real.pi_ne_zero (show (r : ℝ) * pi = q / n * pi by rw [same]; ring)
        rw [this]
        field_simp
      exact_mod_cast (mul_comm (n : ℝ) r ▸ scaled.symm)
    refine (mul_eq_zero.mp (?_ : 2 * sin (pi * q / n) * _ = 0)).resolve_left (mul_ne_zero two_ne_zero half)
    have step (l : Nat) : 2 * sin (pi * q / n) * cos (c + 2 * pi * q * l / n) =
        sin (c + pi * q / n * (2 * (l + 1 : Nat) - 1)) - sin (c + pi * q / n * (2 * l - 1)) := by
      have apart : (c + pi * q / n * (2 * (l + 1 : Nat) - 1) - (c + pi * q / n * (2 * l - 1))) / 2 = pi * q / n := by
        push_cast
        ring
      have middle : (c + pi * q / n * (2 * (l + 1 : Nat) - 1) + (c + pi * q / n * (2 * l - 1))) / 2 =
          c + 2 * pi * q * l / n := by
        push_cast
        ring
      rw [Real.sin_sub_sin, apart, middle]
    rw [Finset.mul_sum, Finset.sum_congr rfl fun l _ => step l,
      Finset.sum_range_sub fun l : Nat => sin (c + pi * q / n * (2 * l - 1)), sub_eq_zero]
    rw [← Real.sin_add_int_mul_two_pi (c + pi * q / n * (2 * (0 : Nat) - 1)) q]
    congr 1
    field_simp
    push_cast
    ring

/-- How far mode `k` of a line of `n` points has turned at a place. -/
noncomputable def phase (n k : Nat) (t : ℝ) : ℝ := (2 : Nat) * pi * k * t / n

theorem phase_eq (n k : Nat) (t : ℝ) : phase n k t = 2 * pi * k * t / n := by rw [phase, Nat.cast_ofNat]

theorem phase_add (n k : Nat) (s t : ℝ) : phase n k (s + t) = phase n k s + phase n k t := by
  unfold phase
  ring

theorem phase_sub (n k : Nat) (s t : ℝ) : phase n k (s - t) = phase n k s - phase n k t := by
  unfold phase
  ring

/-- A mode without a partner stands at one of two opposite places at every point. -/
theorem sin_phase_own {n k : Nat} (own : k = 0 ∨ 2 * k = n) (m : Nat) : sin (phase n k m) = 0 := by
  rcases own with rfl | rfl
  · simp [phase]
  · rcases Nat.eq_zero_or_pos k with rfl | some_
    · simp [phase]
    · have positive : (k : ℝ) ≠ 0 := by exact_mod_cast some_.ne'
      rw [← Real.sin_nat_mul_pi m, phase_eq]
      congr 1
      push_cast
      field_simp

/-- How often a mode counts in a line of `n` points: with its partner, if it has one. -/
def copies (n k : Nat) : ℝ := if k = 0 ∨ 2 * k = n then 1 else (2 : Nat)

theorem copies_eq (n k : Nat) : copies n k = if k = 0 ∨ 2 * k = n then 1 else 2 := by rw [copies, Nat.cast_ofNat]

/-- Modes and their partners together are all frequencies. -/
theorem sum_partners {n : Nat} (some_ : 0 < n) {g : Nat → ℝ} (partner : ∀ k, 0 < k → k < n → g (n - k) = g k) :
    ∑ k ∈ range n, g k = ∑ k ∈ range (n / 2 + 1), copies n k * g k := by
  have low : (range n).filter (fun k => 2 * k ≤ n) = range (n / 2 + 1) := by
    ext k
    simp only [Finset.mem_filter, Finset.mem_range]
    omega
  have high : ∑ k ∈ (range n).filter (fun k => ¬ 2 * k ≤ n), g k = ∑ k ∈ (range n).filter (fun k => 0 < k ∧ 2 * k < n), g k := by
    refine Finset.sum_nbij' (n - ·) (n - ·) ?_ ?_ ?_ ?_ ?_
    all_goals simp only [Finset.mem_filter, Finset.mem_range]
    · omega
    · omega
    · omega
    · omega
    · intro k inside
      exact (partner k (by omega) (by omega)).symm
  have paired : (range n).filter (fun k => 0 < k ∧ 2 * k < n) = (range (n / 2 + 1)).filter fun k => 0 < k ∧ 2 * k < n := by
    ext k
    simp only [Finset.mem_filter, Finset.mem_range]
    omega
  rw [← Finset.sum_filter_add_sum_filter_not (range n) (fun k => 2 * k ≤ n), high, low, paired, Finset.sum_filter,
    ← Finset.sum_add_distrib]
  refine Finset.sum_congr rfl fun k inside => ?_
  have below := Finset.mem_range.mp inside
  simp only [copies_eq]
  split_ifs with first second
  · omega
  · ring
  · ring
  · omega

/-- The wave that is one at the origin and zero at all other points of a line of `n`, at a place `t` between them. -/
noncomputable def pulse (n : Nat) (t : ℝ) : ℝ := (∑ k ∈ range (n / 2 + 1), copies n k * cos (phase n k t)) / n

theorem pulse_int {n : Nat} (some_ : 0 < n) (d : Int) : pulse n d = if (n : Int) ∣ d then 1 else 0 := by
  have positive : (0 : ℝ) < n := by exact_mod_cast some_
  have partner (k : Nat) (_ : 0 < k) (inside : k < n) :
      cos (phase n (n - k) d) = cos (phase n k d) := by
    rw [← Real.cos_int_mul_two_pi_sub (phase n k d) d]
    congr 1
    rw [phase_eq, phase_eq, Nat.cast_sub (by omega)]
    field_simp
  have turns := sum_cos_turns some_ d 0
  rw [pulse, ← sum_partners some_ partner]
  have same (k : Nat) : phase n k d = 0 + 2 * pi * d * k / n := by
    simp only [phase_eq]
    ring
  simp only [same, turns]
  split
  · simp [positive.ne']
  · simp

theorem pulse_one (t : ℝ) : pulse 1 t = 1 := by
  simp [pulse, copies_eq, phase_eq]

/-- The pulses around the points of a line add up to it. -/
theorem sum_mul_pulse {n : Nat} (line : Nat → ℝ) {j : Nat} (inside : j < n) :
    ∑ m ∈ range n, line m * pulse n (j - m : Int) = line j := by
  rw [Finset.sum_eq_single j]
  · rw [pulse_int (by omega), if_pos (by simp), mul_one]
  · intro m within apart
    have below := Finset.mem_range.mp within
    have off : ¬ (n : Int) ∣ (j - m : Int) := by
      intro divides
      have := Int.eq_zero_of_abs_lt_dvd divides (abs_lt.mpr ⟨by omega, by omega⟩)
      omega
    rw [pulse_int (by omega), if_neg off, mul_zero]
  · exact fun outside => absurd (Finset.mem_range.mpr inside) outside

/-- Two waves moved against each other meet only in the mode they share, once more if the mode is its own partner. -/
theorem sum_cos_meet {n k k' : Nat} (low : 2 * k ≤ n) (low' : 2 * k' ≤ n) (some_ : 0 < n) (s : ℝ) (j m : Int) :
    ∑ l ∈ range n, cos (phase n k (j - l + s)) * cos (phase n k' (l - m - s)) = if k' = k then
      n / 2 * (cos (phase n k (j - m : Int)) + if k = 0 ∨ 2 * k = n then cos (phase n k (j + m + 2 * s)) else 0)
      else 0 := by
  have positive : (0 : ℝ) < n := by exact_mod_cast some_
  have product (l : Nat) : cos (phase n k (j - l + s)) * cos (phase n k' (l - m - s)) =
      1 / 2 * (cos (2 * pi * (k * (j + s) - k' * (m + s)) / n + 2 * pi * ((k' - k : Int) : ℝ) * l / n) +
        cos (2 * pi * (k * (j + s) + k' * (m + s)) / n + 2 * pi * ((-(k + k') : Int) : ℝ) * l / n)) := by
    have sum : 2 * pi * (k * (j + s) - k' * (m + s)) / n + 2 * pi * ((k' - k : Int) : ℝ) * l / n =
        phase n k (j - l + s) + phase n k' (l - m - s) := by
      simp only [phase_eq]
      push_cast
      ring
    have difference : 2 * pi * (k * (j + s) + k' * (m + s)) / n + 2 * pi * ((-(k + k') : Int) : ℝ) * l / n =
        phase n k (j - l + s) - phase n k' (l - m - s) := by
      simp only [phase_eq]
      push_cast
      ring
    rw [sum, difference, Real.cos_add, Real.cos_sub]
    ring
  have first : (n : Int) ∣ (k' - k : Int) ↔ k' = k := by
    constructor
    · intro divides
      have := Int.eq_zero_of_abs_lt_dvd divides (abs_lt.mpr ⟨by omega, by omega⟩)
      omega
    · rintro rfl
      simp
  have second : (n : Int) ∣ (-(k + k') : Int) ↔ k' = k ∧ (k = 0 ∨ 2 * k = n) := by
    rw [Int.dvd_neg]
    constructor
    · rintro ⟨q, same⟩
      have bounds : q = 0 ∨ q = 1 := by
        have below : q < 2 := by
          by_contra many
          nlinarith
        have above : -1 < q := by
          by_contra few
          nlinarith
        omega
      rcases bounds with rfl | rfl <;> omega
    · rintro ⟨rfl, rfl | double⟩
      · simp
      · exact ⟨1, by omega⟩
  simp only [product]
  rw [← Finset.mul_sum, Finset.sum_add_distrib, sum_cos_turns some_, sum_cos_turns some_]
  simp only [first, second]
  by_cases same : k' = k
  · subst same
    have middle : 2 * pi * (k' * (j + s) - k' * (m + s)) / n = phase n k' (j - m : Int) := by
      simp only [phase_eq]
      push_cast
      ring
    have outer : 2 * pi * (k' * (j + s) + k' * (m + s)) / n = phase n k' (j + m + 2 * s) := by
      simp only [phase_eq]
      ring
    simp only [true_and, if_true, middle, outer]
    split_ifs <;> ring
  · simp [same]

/-- Moving the wave by `s` and back restores it but for the mode that changes sign at every point. Of this one only
the cosine of the move is left each time. -/
theorem sum_pulses {n : Nat} (some_ : 0 < n) (s : ℝ) (j m : Int) :
    ∑ l ∈ range n, pulse n (j - l + s) * pulse n (l - m - s) =
      pulse n (j - m : Int) - if 2 ∣ n then cos (pi * (j - m : Int)) * sin (pi * s) ^ 2 / n else 0 := by
  have positive : (0 : ℝ) < n := by exact_mod_cast some_
  -- the product of two sums over modes, with the points summed first
  have regrouped : ∑ l ∈ range n, pulse n (j - l + s) * pulse n (l - m - s) =
      (∑ k ∈ range (n / 2 + 1), ∑ k' ∈ range (n / 2 + 1), copies n k * copies n k' *
        ∑ l ∈ range n, cos (phase n k (j - l + s)) * cos (phase n k' (l - m - s))) / n ^ 2 := by
    simp only [pulse, Finset.mul_sum]
    rw [Finset.sum_congr rfl fun k _ => Finset.sum_comm, Finset.sum_comm, Finset.sum_div]
    refine Finset.sum_congr rfl fun l _ => ?_
    rw [div_mul_div_comm, Finset.sum_mul_sum, ← sq]
    congr 1
    refine Finset.sum_congr rfl fun k _ => Finset.sum_congr rfl fun k' _ => ?_
    ring
  have met (k : Nat) (inside : k ∈ range (n / 2 + 1)) : (∑ k' ∈ range (n / 2 + 1), copies n k * copies n k' *
      ∑ l ∈ range n, cos (phase n k (j - l + s)) * cos (phase n k' (l - m - s))) =
        n * (copies n k * cos (phase n k (j - m : Int))) -
          if 2 * k = n then n * (cos (pi * (j - m : Int)) * sin (pi * s) ^ 2) else 0 := by
    have low : 2 * k ≤ n := by
      have := Finset.mem_range.mp inside
      omega
    rw [Finset.sum_eq_single k]
    · rw [sum_cos_meet low low some_ s j m, if_pos rfl]
      by_cases mean : k = 0
      · subst mean
        simp [copies_eq, phase_eq, show ¬ 0 = n by omega]
        ring
      by_cases highest : 2 * k = n
      · have half : (n : ℝ) = 2 * k := by exact_mod_cast highest.symm
        have away : (k : ℝ) ≠ 0 := by exact_mod_cast mean
        have inner : phase n k (j - m : Int) = pi * (j - m : Int) := by
          rw [phase_eq, half]
          field_simp
        have outer : cos (phase n k (j + m + 2 * s)) = cos (2 * (pi * s) + pi * (j - m : Int)) := by
          rw [← Real.cos_add_int_mul_two_pi (2 * (pi * s) + pi * (j - m : Int)) m, phase_eq, half]
          congr 1
          push_cast
          field_simp
          ring
        have level : sin (pi * (j - m : Int)) = 0 := by
          rw [mul_comm]
          exact Real.sin_int_mul_pi _
        simp only [copies_eq, highest, or_true, if_true, inner, outer, Real.cos_add, level, Real.cos_two_mul,
          Real.sin_sq]
        ring
      · simp only [copies_eq, mean, highest, or_self, if_false]
        ring
    · intro k' inside' other
      have low' : 2 * k' ≤ n := by
        have := Finset.mem_range.mp inside'
        omega
      rw [sum_cos_meet low low' some_ s j m, if_neg other, mul_zero]
    · exact fun outside => absurd inside outside
  rw [regrouped, Finset.sum_congr rfl met, Finset.sum_sub_distrib, ← Finset.mul_sum, pulse]
  generalize ∑ k ∈ range (n / 2 + 1), copies n k * cos (phase n k (j - m : Int)) = modes
  by_cases even : 2 ∣ n
  · obtain ⟨half, rfl⟩ := even
    have only (k : Nat) : (2 * k = 2 * half) = (k = half) := by simp
    simp only [only, Finset.sum_ite_eq', Finset.mem_range, show half < 2 * half / 2 + 1 by omega, if_true,
      dvd_mul_right]
    field_simp
  · have none (k : Nat) : (2 * k = n) = False := by
      simp only [eq_iff_iff, iff_false]
      exact fun same => even ⟨k, same.symm⟩
    simp only [none, if_false, Finset.sum_const_zero, even, sub_zero]
    field_simp

/-- The part of a line that changes sign from each point to the next. -/
noncomputable def alternating (n : Nat) (line : Nat → ℝ) : ℝ := (∑ m ∈ range n, (-1) ^ m * line m) / n

/-- A line that is moved and moved back lacks only of its alternating part, which is in lines of even length alone. -/
theorem sum_sum_pulses {n : Nat} (some_ : 0 < n) (line : Nat → ℝ) (t : ℝ) {j : Nat} (inside : j < n) :
    ∑ l ∈ range n, (∑ m ∈ range n, line m * pulse n (l - m - t)) * pulse n (j - l + t) =
      line j - if 2 ∣ n then sin (pi * t) ^ 2 * ((-1) ^ j * alternating n line) else 0 := by
  have sign (m : Nat) : cos (pi * (j - m : Int)) = (-1) ^ j * (-1) ^ m := by
    have level : sin (m * pi) = 0 := Real.sin_nat_mul_pi m
    rw [show pi * ((j - m : Int) : ℝ) = j * pi - m * pi by push_cast; ring, Real.cos_sub, level, mul_zero, add_zero,
      Real.cos_nat_mul_pi, Real.cos_nat_mul_pi]
  calc ∑ l ∈ range n, (∑ m ∈ range n, line m * pulse n (l - m - t)) * pulse n (j - l + t)
      = ∑ m ∈ range n, line m * ∑ l ∈ range n, pulse n ((j : Int) - l + t) * pulse n (l - (m : Int) - t) := by
        simp only [Finset.sum_mul, Finset.mul_sum]
        rw [Finset.sum_comm]
        refine Finset.sum_congr rfl fun m _ => Finset.sum_congr rfl fun l _ => ?_
        push_cast
        ring
    _ = ∑ m ∈ range n, (line m * pulse n (j - m : Int) -
          if 2 ∣ n then sin (pi * t) ^ 2 * ((-1) ^ j * ((-1) ^ m * line m / n)) else 0) := by
        refine Finset.sum_congr rfl fun m _ => ?_
        rw [sum_pulses some_, sign]
        split <;> ring
    _ = line j - if 2 ∣ n then sin (pi * t) ^ 2 * ((-1) ^ j * alternating n line) else 0 := by
        rw [Finset.sum_sub_distrib, sum_mul_pulse line inside]
        congr 1
        split
        · rw [alternating, Finset.sum_div, ← Finset.mul_sum, ← Finset.mul_sum]
        · exact Finset.sum_const_zero

end Exact

end HaloMesh
