import Mathlib.Algebra.BigOperators.Intervals
import Mathlib.Analysis.Real.Sqrt
import Mathlib.Analysis.SpecialFunctions.Trigonometric.Basic
import HaloMesh.Proofs.Midpoints

/-! Real numbers as the values of a mesh. Over them a linear kernel and a half step are both fixed weightings of
the five points around their own on a line. -/

namespace HaloMesh

open Classical in
/-- Exact arithmetic. No number is infinite or undefined, and there is no text for a number. -/
noncomputable instance : Scalar ℝ where
  toAdd := inferInstance
  toSub := inferInstance
  toMul := inferInstance
  toDiv := inferInstance
  toNeg := inferInstance
  ofInt n := n
  ofScientific m negative e := if negative then m / 10 ^ e else m * 10 ^ e
  lt a b := decide (a < b)
  le a b := decide (a ≤ b)
  same a b := decide (a = b)
  abs a := |a|
  sqrt := Real.sqrt
  sin := Real.sin
  cos := Real.cos
  pi := Real.pi
  wholePower a n := a ^ n
  undefined := 0
  isUndefined _ := false
  isInfinite _ := false
  round a := if 0 ≤ a then ⌊a + 1 / 2⌋ else ⌈a - 1 / 2⌉
  roundEven a := if Int.fract a = 1 / 2 then 2 * ⌊(a + 1 / 2) / 2⌋ else round a
  truncate a := if 0 ≤ a then ⌊a⌋ else ⌈a⌉
  text _ := ""
  plainText _ := ""
  dataText _ := ""
  tableText _ := ""

namespace Exact

theorem ofNat_eq (n : Nat) : @OfNat.ofNat ℝ n (Scalar.instOfNatScalar n) = (n : ℝ) := by
  change ((n : Int) : ℝ) = n
  push_cast
  rfl

theorem zero_eq : @OfNat.ofNat ℝ 0 (Scalar.instOfNatScalar 0) = 0 := by
  rw [ofNat_eq, Nat.cast_zero]

theorem half_eq : @OfScientific.ofScientific ℝ Scalar.instOfScientificScalar 5 true 1 = 1 / 2 := by
  change ((5 : Nat) : ℝ) / 10 ^ 1 = 1 / 2
  norm_num

theorem midpoint4_eq (a b c d : ℝ) : Kernel.midpoint4 a b c d = (9 * (b + c) - (a + d)) / 16 := by
  simp only [Kernel.midpoint4, ofNat_eq]

theorem foldl_add {β : Type} (part : β → ℝ) (items : List β) (start : ℝ) :
    items.foldl (fun s item => s + part item) start = start + (items.map part).sum := by
  induction items generalizing start with
  | nil => simp
  | cons item rest ih => rw [List.foldl_cons, ih, List.map_cons, List.sum_cons, add_assoc]

/-- The default ends of the z range are in order. -/
theorem default_range :
    Scalar.le (@OfNat.ofNat ℝ 1 (Scalar.instOfNatScalar 1)) (@OfNat.ofNat ℝ 0 (Scalar.instOfNatScalar 0)) = false :=
  decide_eq_false (by rw [ofNat_eq, ofNat_eq]; norm_num)

/-- Weights by the distance of a point from the middle one of five. -/
def weights (a b c d e : ℝ) (j : Int) : ℝ :=
  if j = -2 then a else if j = -1 then b else if j = 0 then c else if j = 1 then d else if j = 2 then e else 0

/-- The sum of the five points around point `i` of a line, each with its weight. -/
noncomputable def around (w : Int → ℝ) (line : Int → ℝ) (i : Int) : ℝ := ∑ j ∈ Finset.Icc (-2) 2, w j * line (i + j)

theorem around_weights (a b c d e : ℝ) (line : Int → ℝ) (i : Int) : around (weights a b c d e) line i =
    a * line (i - 2) + b * line (i - 1) + c * line i + d * line (i + 1) + e * line (i + 2) := by
  have five : Finset.Icc (-2 : Int) 2 = {-2, -1, 0, 1, 2} := by decide
  rw [around, five]
  simp only [weights, Finset.sum_insert (show (-2 : Int) ∉ ({-1, 0, 1, 2} : Finset Int) by decide),
    Finset.sum_insert (show (-1 : Int) ∉ ({0, 1, 2} : Finset Int) by decide),
    Finset.sum_insert (show (0 : Int) ∉ ({1, 2} : Finset Int) by decide),
    Finset.sum_insert (show (1 : Int) ∉ ({2} : Finset Int) by decide), Finset.sum_singleton, Int.add_zero,
    ← Int.sub_eq_add_neg]
  norm_num
  ring

theorem weights_counts {a b c d e : ℝ} {j : Int} (counts : weights a b c d e j ≠ 0) :
    j = -2 ∧ a ≠ 0 ∨ j = -1 ∧ b ≠ 0 ∨ j = 0 ∧ c ≠ 0 ∨ j = 1 ∧ d ≠ 0 ∨ j = 2 ∧ e ≠ 0 := by
  unfold weights at counts
  split_ifs at counts <;> simp_all

theorem weights_near {b c d : ℝ} {j : Int} (counts : weights 0 b c d 0 j ≠ 0) : -1 ≤ j ∧ j ≤ 1 := by
  have := weights_counts counts
  simp only [ne_eq, not_true_eq_false, and_false, false_or, or_false] at this
  omega

theorem weights_far {a b c d e : ℝ} {j : Int} (counts : weights a b c d e j ≠ 0) : -2 ≤ j ∧ j ≤ 2 := by
  have := weights_counts counts
  omega

/-- Terms without weight do not matter. -/
theorem around_congr {w : Int → ℝ} {line line' : Int → ℝ} {i i' : Int}
    (same : ∀ j, w j ≠ 0 → line (i + j) = line' (i' + j)) : around w line i = around w line' i' := by
  apply Finset.sum_congr rfl
  intro j _
  by_cases counts : w j = 0
  · rw [counts, zero_mul, zero_mul]
  · rw [same j counts]

/-- Sums along two lines can be taken in either order. -/
theorem around_comm (w s : Int → ℝ) (plane : Int → Int → ℝ) (i k : Int) :
    around s (fun u => around w (plane u) i) k = around w (fun v => around s (fun u => plane u v) k) i := by
  simp only [around, Finset.mul_sum]
  rw [Finset.sum_comm]
  apply Finset.sum_congr rfl
  intro _ _
  apply Finset.sum_congr rfl
  intro _ _
  ring

theorem around_add (w line line' : Int → ℝ) (i : Int) :
    around w (fun j => line j + line' j) i = around w line i + around w line' i := by
  simp only [around, mul_add, Finset.sum_add_distrib]

theorem around_const (w : Int → ℝ) (c : ℝ) (i : Int) : around w (fun _ => c) i = c * around w (fun _ => 1) i := by
  simp only [around, Finset.mul_sum]
  apply Finset.sum_congr rfl
  intro _ _
  ring

theorem window_near (line : Int → ℝ) (i : Int) :
    Window.on line i .centred (1 : Nat) = ⟨Scalar.ofInt 0, line (i - 1), line i, line (i + 1), Scalar.ofInt 0⟩ := rfl

theorem window_far (line : Int → ℝ) (i : Int) :
    Window.on line i .centred (2 : Nat) = ⟨line (i - 1 - 1), line (i - 1), line i, line (i + 1), line (i + 1 + 1)⟩ := rfl

/-- A linear kernel weights the points within its width. -/
theorem slope_weighted {family : Family} {method : Method} {k : Kernel ℝ} (made : Kernel.of? family method = some k)
    (linear : k.isLinear = true) (unstaggered : family.staggered = false) (kind : Kind) (n : Nat) :
    ∃ w : Int → ℝ, (∀ j, w j ≠ 0 → -(k.width : Int) ≤ j ∧ j ≤ k.width) ∧
      ∀ line i, k.slope kind .centred n line i = around w line i := by
  obtain ⟨kind', staggered⟩ := family
  obtain rfl : staggered = false := unstaggered
  cases kind' <;> cases method <;> simp [Kernel.of?] at made <;> subst made <;> simp at linear
  · refine ⟨weights 0 (-1 / 2) 0 (1 / 2) 0, fun j => weights_near, fun line i => ?_⟩
    rw [around_weights]
    change Kernel.firstC2 (Window.on line i .centred (1 : Nat)) = _
    rw [window_near]
    simp only [Kernel.firstC2, half_eq]
    ring
  · refine ⟨weights (1 / 12) (-8 / 12) 0 (8 / 12) (-1 / 12), fun j => weights_far, fun line i => ?_⟩
    rw [around_weights]
    change Kernel.firstC4 (Window.on line i .centred (2 : Nat)) = _
    rw [window_far, Int.sub_sub, Int.add_assoc]
    simp only [Kernel.firstC4, ofNat_eq]
    norm_num
    ring
  · refine ⟨weights 0 1 (-2) 1 0, fun j => weights_near, fun line i => ?_⟩
    rw [around_weights]
    change Kernel.secondC2 (Window.on line i .centred (1 : Nat)) = _
    rw [window_near]
    simp only [Kernel.secondC2, ofNat_eq]
    norm_num
    ring
  · refine ⟨weights (-1 / 12) (16 / 12) (-30 / 12) (16 / 12) (-1 / 12), fun j => weights_far, fun line i => ?_⟩
    rw [around_weights]
    change Kernel.secondC4 (Window.on line i .centred (2 : Nat)) = _
    rw [window_far, Int.sub_sub, Int.add_assoc]
    simp only [Kernel.secondC4, ofNat_eq]
    norm_num
    ring
  · refine ⟨weights 1 (-4) 6 (-4) 1, fun j => weights_far, fun line i => ?_⟩
    rw [around_weights]
    change Kernel.fourthC2 (Window.on line i .centred (2 : Nat)) = _
    rw [window_far, Int.sub_sub, Int.add_assoc]
    simp only [Kernel.fourthC2, ofNat_eq]
    norm_num
    ring

/-- A value of a line is an average of points around point `i` that the line has. -/
def Averages (periodic : Bool) (n i : Int) (value : (Int → ℝ) → ℝ) : Prop :=
  ∃ w : Int → ℝ, (∀ j, w j ≠ 0 → periodic = true ∨ 0 ≤ i + j ∧ i + j < n) ∧ around w (fun _ => 1) i = 1 ∧
    ∀ line, value line = around w line i

section Steps

variable {periodic : Bool} {n i : Int}

theorem averages_self (low : 0 ≤ i) (high : i < n) : Averages periodic n i fun line => line i := by
  refine ⟨weights 0 0 1 0 0, fun j counts => .inr ?_, by simp [around_weights], fun line => by simp [around_weights]⟩
  have reach := weights_counts counts
  norm_num at reach
  omega

theorem averages_two {a : Int} (near : a = i - 1 ∨ a = i) (inside : 0 ≤ a ∧ a + 1 < n) :
    Averages periodic n i fun line => 1 / 2 * (line a + line (a + 1)) := by
  rcases near with rfl | rfl
  · refine ⟨weights 0 (1 / 2) (1 / 2) 0 0, fun j counts => .inr ?_, by norm_num [around_weights], fun line => ?_⟩
    · have reach := weights_counts counts
      norm_num at reach
      omega
    · rw [around_weights, Int.sub_add_cancel]
      ring
  · refine ⟨weights 0 0 (1 / 2) (1 / 2) 0, fun j counts => .inr ?_, by norm_num [around_weights], fun line => ?_⟩
    · have reach := weights_counts counts
      norm_num at reach
      omega
    · rw [around_weights]
      ring

theorem averages_four {a : Int} (near : a = i - 1 ∨ a = i) (inside : periodic = true ∨ (0 ≤ a - 1 ∧ a + 2 < n)) :
    Averages periodic n i fun line => (9 * (line a + line (a + 1)) - (line (a - 1) + line (a + 2))) / 16 := by
  rcases near with rfl | rfl
  · refine ⟨weights (-1 / 16) (9 / 16) (9 / 16) (-1 / 16) 0, fun j counts => inside.imp_right fun within => ?_,
      by norm_num [around_weights], fun line => ?_⟩
    · have reach := weights_counts counts
      norm_num at reach
      omega
    · rw [around_weights, Int.sub_add_cancel, show i - 1 - 1 = i - 2 by omega, show i - 1 + 2 = i + 1 by omega]
      ring
  · refine ⟨weights 0 (-1 / 16) (9 / 16) (9 / 16) (-1 / 16), fun j counts => inside.imp_right fun within => ?_,
      by norm_num [around_weights], fun line => ?_⟩
    · have reach := weights_counts counts
      norm_num at reach
      omega
    · rw [around_weights]
      ring

theorem averages_stepped (periodic toLow : Bool) (low : 0 ≤ i) (high : i < n) :
    Averages periodic n i fun line => Field.stepped line periodic toLow n i := by
  have kept : Averages periodic n i fun line => line i := averages_self low high
  have near : i + (if toLow then -1 else 0) = i - 1 ∨ i + (if toLow then -1 else 0) = i := by
    cases toLow <;> simp [Int.sub_eq_add_neg]
  unfold Field.stepped
  by_cases single : n = 1
  · simpa only [if_pos single] using kept
  · simp only [if_neg single]
    generalize i + (if toLow then -1 else 0) = a at near
    by_cases wide : periodic = true ∨ (0 ≤ a - 1 ∧ a + 2 < n)
    · simpa only [Field.midway, if_pos wide, Option.getD_some, midpoint4_eq] using averages_four near wide
    · by_cases narrow : 0 ≤ a ∧ a + 1 < n
      · simpa only [Field.midway, if_neg wide, if_pos narrow, Option.getD_some, half_eq] using averages_two near narrow
      · simpa only [Field.midway, if_neg wide, if_neg narrow, Option.getD_none] using kept

end Steps

end Exact
end HaloMesh
