import HaloMesh.Proofs.KernelSymmetry

/-! Kernels that weight their candidates by smoothness. They are run on numbers that keep a record of everything they
were divided by, and all of it is positive, whatever the data. So the weights are proper ones and the result lies
between the candidates. -/

namespace HaloMesh

/-- A real number with all the divisors that went into it. -/
structure Recorded where
  value : ℝ
  divisors : List ℝ

namespace Recorded

/-- A number that was not worked out. -/
def given (x : ℝ) : Recorded := ⟨x, []⟩

noncomputable def unary (op : ℝ → ℝ) (a : Recorded) : Recorded := ⟨op a.value, a.divisors⟩

noncomputable def binary (op : ℝ → ℝ → ℝ) (a b : Recorded) : Recorded := ⟨op a.value b.value, a.divisors ++ b.divisors⟩

noncomputable instance : Scalar Recorded where
  add := binary (· + ·)
  sub := binary (· - ·)
  mul := binary (· * ·)
  div a b := ⟨a.value / b.value, a.divisors ++ b.divisors ++ [b.value]⟩
  neg := unary (- ·)
  ofInt n := given (Scalar.ofInt n)
  ofScientific m negative e := given (Scalar.ofScientific m negative e)
  lt a b := Scalar.lt a.value b.value
  le a b := Scalar.le a.value b.value
  same a b := Scalar.same a.value b.value
  abs := unary Scalar.abs
  sqrt := unary Scalar.sqrt
  sin := unary Scalar.sin
  cos := unary Scalar.cos
  pi := given Scalar.pi
  wholePower a n := unary (Scalar.wholePower · n) a
  undefined := given Scalar.undefined
  isUndefined a := Scalar.isUndefined a.value
  isInfinite a := Scalar.isInfinite a.value
  round a := Scalar.round a.value
  roundEven a := Scalar.roundEven a.value
  truncate a := Scalar.truncate a.value
  text a := Scalar.text a.value
  plainText a := Scalar.plainText a.value
  dataText a := Scalar.dataText a.value
  tableText a := Scalar.tableText a.value

/-- All that was divided by is positive. -/
def Safe (a : Recorded) : Prop := ∀ d ∈ a.divisors, 0 < d

variable {a b : Recorded}

@[simp] theorem safe_given (x : ℝ) : (given x).Safe := by simp [Safe, given]

theorem safe_ofNat (n : Nat) : (@OfNat.ofNat Recorded n (Scalar.instOfNatScalar n)).Safe := safe_given _

@[simp] theorem safe_ofScientific (m : Nat) (negative : Bool) (e : Nat) :
    (@OfScientific.ofScientific Recorded Scalar.instOfScientificScalar m negative e).Safe := safe_given _

@[simp] theorem safe_add : (a + b).Safe ↔ a.Safe ∧ b.Safe := List.forall_mem_append

@[simp] theorem safe_sub : (a - b).Safe ↔ a.Safe ∧ b.Safe := List.forall_mem_append

@[simp] theorem safe_mul : (a * b).Safe ↔ a.Safe ∧ b.Safe := List.forall_mem_append

@[simp] theorem safe_neg : (-a).Safe ↔ a.Safe := Iff.rfl

@[simp] theorem safe_square : (Scalar.square a).Safe ↔ a.Safe := safe_mul.trans and_self_iff

@[simp] theorem safe_div : (a / b).Safe ↔ a.Safe ∧ b.Safe ∧ 0 < b.value := by
  change (∀ d ∈ a.divisors ++ b.divisors ++ [b.value], 0 < d) ↔ _
  rw [List.forall_mem_append, List.forall_mem_append, List.forall_mem_singleton, and_assoc]
  rfl

/-- Safe, and fit to be divided by. -/
def Positive (a : Recorded) : Prop := a.Safe ∧ 0 < a.value

theorem positive_ofNat {n : Nat} (positive : 0 < n) : (@OfNat.ofNat Recorded n (Scalar.instOfNatScalar n)).Positive := by
  refine ⟨safe_ofNat n, ?_⟩
  change 0 < @OfNat.ofNat ℝ n (Scalar.instOfNatScalar n)
  rw [Exact.ofNat_eq]
  exact_mod_cast positive

theorem positive_ofScientific {m : Nat} (positive : 0 < m) (e : Nat) :
    (@OfScientific.ofScientific Recorded Scalar.instOfScientificScalar m true e).Positive := by
  refine ⟨safe_ofScientific m true e, ?_⟩
  change 0 < @OfScientific.ofScientific ℝ Scalar.instOfScientificScalar m true e
  rw [Kernel.scientific_eq]
  positivity

theorem Positive.add (first : a.Positive) (second : b.Positive) : (a + b).Positive :=
  ⟨safe_add.mpr ⟨first.1, second.1⟩, add_pos first.2 second.2⟩

theorem Positive.mul (first : a.Positive) (second : b.Positive) : (a * b).Positive :=
  ⟨safe_mul.mpr ⟨first.1, second.1⟩, mul_pos first.2 second.2⟩

theorem Positive.div (first : a.Positive) (second : b.Positive) : (a / b).Positive :=
  ⟨safe_div.mpr ⟨first.1, second⟩, div_pos first.2 second.2⟩

/-- A measure of smoothness, which is never zero. -/
theorem positive_smoothness (rough : b.Safe) (low : 0 ≤ b.value) : (Kernel.smoothnessFloor + b).Positive :=
  ⟨safe_add.mpr ⟨safe_given _, rough⟩, add_pos_of_pos_of_nonneg Kernel.smoothnessFloor_pos low⟩

end Recorded

/-- The window of values that were not worked out. -/
def Window.given (f : Window ℝ) : Window Recorded := ⟨.given f.mm, .given f.m, .given f.c, .given f.p, .given f.pp⟩

/-- A mean with positive weights lies where the values do. -/
theorem mean_mem_Icc {a b c x y z lo hi : ℝ} (first : 0 < a) (second : 0 < b) (third : 0 < c) (inX : x ∈ Set.Icc lo hi)
    (inY : y ∈ Set.Icc lo hi) (inZ : z ∈ Set.Icc lo hi) : (a * x + b * y + c * z) / (a + b + c) ∈ Set.Icc lo hi := by
  have total : 0 < a + b + c := by positivity
  constructor
  · rw [le_div_iff₀ total]
    linarith [mul_le_mul_of_nonneg_left inX.1 first.le, mul_le_mul_of_nonneg_left inY.1 second.le,
      mul_le_mul_of_nonneg_left inZ.1 third.le]
  · rw [div_le_iff₀ total]
    linarith [mul_le_mul_of_nonneg_left inX.2 first.le, mul_le_mul_of_nonneg_left inY.2 second.le,
      mul_le_mul_of_nonneg_left inZ.2 third.le]

namespace Kernel

open Recorded

theorem positive_weight {w rough : Recorded} (positive : w.Positive) (safe : rough.Safe) (low : 0 ≤ rough.value) :
    (w / Scalar.square (smoothnessFloor + rough)).Positive :=
  positive.div ((positive_smoothness safe low).mul (positive_smoothness safe low))

variable (vc : ℝ) (f : Window ℝ)

/-- The second order kernel takes a mean of the differences on the two sides and of the central one. -/
theorem firstW2_mean : ∃ al ar ac : Recorded, al.Positive ∧ ar.Positive ∧ ac.Positive ∧
    firstW2 f.given = (al * (f.given.c - f.given.m) + ar * (f.given.p - f.given.c) +
      ac * (0.5 * (f.given.p - f.given.m))) / (al + ar + ac) := by
  let w := f.given
  have two : (2 : Recorded).Safe := safe_ofNat 2
  have third : (13 / 3 : Recorded).Positive := (positive_ofNat (by decide)).div (positive_ofNat (by decide))
  have quarter : (0.25 : Recorded).Positive := positive_ofScientific (by decide) 2
  have half : (0.5 : Recorded).Positive := positive_ofScientific (by decide) 1
  have left : (Scalar.square (w.c - w.m)).Safe := by simp [w, Window.given]
  have right : (Scalar.square (w.p - w.c)).Safe := by simp [w, Window.given]
  have rough : (13 / 3 * Scalar.square (w.p - 2 * w.c + w.m) + 0.25 * Scalar.square (w.p - w.m)).Safe := by
    simp [w, Window.given, third.1, two]
  have low : 0 ≤ (13 / 3 * Scalar.square (w.p - 2 * w.c + w.m) + 0.25 * Scalar.square (w.p - w.m)).value :=
    add_nonneg (mul_nonneg third.2.le (mul_self_nonneg _)) (mul_nonneg quarter.2.le (mul_self_nonneg _))
  exact ⟨_, _, _, positive_weight quarter left (mul_self_nonneg _), positive_weight quarter right (mul_self_nonneg _),
    positive_weight half rough low, rfl⟩

theorem firstW2_safe : (firstW2 f.given).Safe := by
  obtain ⟨al, ar, ac, left, right, centre, mean⟩ := firstW2_mean f
  rw [mean, safe_div]
  refine ⟨?_, (left.add right).add centre⟩
  simp [Window.given, left.1, right.1, centre.1]

/-- The central difference is itself half way between those on the two sides. -/
theorem firstW2_between : firstW2 f ∈ Set.uIcc (f.c - f.m) (f.p - f.c) := by
  obtain ⟨al, ar, ac, left, right, centre, mean⟩ := firstW2_mean f
  have central : 1 / 2 * (f.p - f.m) ∈ Set.uIcc (f.c - f.m) (f.p - f.c) := by
    rcases le_total (f.c - f.m) (f.p - f.c) with rising | falling
    · rw [Set.uIcc_of_le rising]
      constructor <;> linarith
    · rw [Set.uIcc_of_ge falling]
      constructor <;> linarith
  rw [← Exact.half_eq] at central
  have value : firstW2 f = _ := congrArg Recorded.value mean
  rw [value]
  exact mean_mem_Icc left.2 right.2 centre.2 Set.left_mem_uIcc Set.right_mem_uIcc central

/-- The central difference less a part of the third difference, by the ratio of the smoothness on the upwind side to the
one at the point. -/
def corrected {α : Type} [Scalar α] (vc across side bend third : α) : α :=
  let r := (smoothnessFloor + Scalar.square side) / (smoothnessFloor + Scalar.square bend)
  vc * (0.5 * (across - 1 / (1 + 2 * r * r) * third))

theorem upwindW3_ahead {α : Type} [Scalar α] {vc : α} (ahead : Scalar.lt 0 vc = true) (f : Window α) : upwindW3 vc f =
    corrected vc (f.p - f.m) (f.c - 2 * f.m + f.mm) (f.p - 2 * f.c + f.m) (-f.mm + 3 * f.m - 3 * f.c + f.p) := by
  simp only [upwindW3, ahead, ↓reduceIte]
  rfl

theorem upwindW3_behind {α : Type} [Scalar α] {vc : α} (behind : Scalar.lt 0 vc = false) (f : Window α) : upwindW3 vc f =
    corrected vc (f.p - f.m) (f.pp - 2 * f.p + f.c) (f.p - 2 * f.c + f.m) (-f.m + 3 * f.c - 3 * f.p + f.pp) := by
  simp only [upwindW3, behind, Bool.false_eq_true, ↓reduceIte]
  rfl

theorem positive_ratio {side bend : Recorded} (near : side.Safe) (here : bend.Safe) :
    ((smoothnessFloor + Scalar.square side) / (smoothnessFloor + Scalar.square bend)).Positive :=
  (positive_smoothness (safe_square.mpr near) (mul_self_nonneg _)).div
    (positive_smoothness (safe_square.mpr here) (mul_self_nonneg _))

theorem safe_corrected {vc across side bend third : Recorded} (carries : vc.Safe) (central : across.Safe) (near : side.Safe)
    (here : bend.Safe) (extra : third.Safe) : (corrected vc across side bend third).Safe := by
  have ratio := positive_ratio near here
  have one : (1 : Recorded).Positive := positive_ofNat (by decide)
  have two : (2 : Recorded).Positive := positive_ofNat (by decide)
  have half : (0.5 : Recorded).Positive := positive_ofScientific (by decide) 1
  have weight := one.div (one.add ((two.mul ratio).mul ratio))
  exact safe_mul.mpr ⟨carries, safe_mul.mpr ⟨half.1, safe_sub.mpr ⟨central, safe_mul.mpr ⟨weight.1, extra⟩⟩⟩⟩

theorem upwindW3_safe : (upwindW3 (given vc) f.given).Safe := by
  have two : (2 : Recorded).Safe := safe_ofNat 2
  have three : (3 : Recorded).Safe := safe_ofNat 3
  cases direction : Scalar.lt (0 : Recorded) (given vc) with
  | true =>
    rw [upwindW3_ahead direction]
    apply safe_corrected <;> simp [Window.given, two, three]
  | false =>
    rw [upwindW3_behind direction]
    apply safe_corrected <;> simp [Window.given, two, three]

/-- The record changes nothing. -/
theorem upwindW3_value : (upwindW3 (given vc) f.given).value = upwindW3 vc f := by
  cases direction : Scalar.lt (0 : Recorded) (given vc) with
  | true =>
    rw [upwindW3_ahead direction, @upwindW3_ahead ℝ _ vc direction]
    rfl
  | false =>
    rw [upwindW3_behind direction, @upwindW3_behind ℝ _ vc direction]
    rfl

theorem corrected_part (vc across side bend third : ℝ) : ∃ w, 0 < w ∧ w < 1 ∧
    corrected vc across side bend third = vc * (1 / 2 * (across - w * third)) := by
  let r := (smoothnessFloor + Scalar.square side) / (smoothnessFloor + Scalar.square bend)
  have ratio : 0 < r := (positive_ratio (safe_given side) (safe_given bend)).2
  have spread : 0 < 2 * r * r := by positivity
  refine ⟨1 / (1 + 2 * r * r), by positivity, (div_lt_one (by linarith)).mpr (by linarith), ?_⟩
  simp only [corrected, r, Exact.half_eq, Exact.ofNat_eq]
  push_cast
  rfl

/-- The second order upwind kernel takes the whole third difference off the central one, and this kernel takes a part. -/
theorem upwindW3_blend : ∃ w, 0 < w ∧ w < 1 ∧ upwindW3 vc f = (1 - w) * upwindC2 vc f + w * upwindU2 vc f := by
  -- for a velocity in the other direction the three kernels see the mirror image
  have forward (vc : ℝ) (f : Window ℝ) (ahead : 0 < vc) :
      ∃ w, 0 < w ∧ w < 1 ∧ upwindW3 vc f = (1 - w) * upwindC2 vc f + w * upwindU2 vc f := by
    obtain ⟨w, low, high, part⟩ := corrected_part vc (f.p - f.m) (f.c - 2 * f.m + f.mm) (f.p - 2 * f.c + f.m)
      (-f.mm + 3 * f.m - 3 * f.c + f.p)
    have upwind : upwindU2 vc f = vc * (3 / 2 * f.c - 2 * f.m + 1 / 2 * f.mm) := by
      rw [upwindU2, if_pos (Exact.zero_le_iff.mpr ahead.le), Exact.half_eq, scientific_eq, Exact.ofNat_eq]
      norm_num
    refine ⟨w, low, high, ?_⟩
    rw [upwindW3_ahead (Exact.zero_lt_iff.mpr ahead)]
    refine part.trans ?_
    rw [upwind, upwindC2, Exact.half_eq]
    ring
  rcases lt_trichotomy vc 0 with behind | rfl | ahead
  · obtain ⟨w, low, high, blend⟩ := forward (-vc) f.mirror (neg_pos.mpr behind)
    refine ⟨w, low, high, ?_⟩
    rwa [upwindW3_mirror, upwindC2_mirror, upwindU2_mirror] at blend
  · refine ⟨1 / 2, by norm_num, by norm_num, ?_⟩
    simp [upwindW3, upwindC2, upwindU2]
  · exact forward vc f ahead

end Kernel

/-- Kernels that weight by smoothness divide by positive numbers only. The second order one stays between the differences on
the two sides, the upwind one strictly between the central and the upwind scheme. -/
theorem smooth_kernels_between_candidates (vc : ℝ) (f : Window ℝ) :
    ((∀ d ∈ (Kernel.firstW2 f.given).divisors, 0 < d) ∧ (Kernel.firstW2 f.given).value = Kernel.firstW2 f) ∧
    ((∀ d ∈ (Kernel.upwindW3 (.given vc) f.given).divisors, 0 < d) ∧
      (Kernel.upwindW3 (.given vc) f.given).value = Kernel.upwindW3 vc f) ∧
    Kernel.firstW2 f ∈ Set.uIcc (f.c - f.m) (f.p - f.c) ∧
    ∃ w, 0 < w ∧ w < 1 ∧ Kernel.upwindW3 vc f = (1 - w) * Kernel.upwindC2 vc f + w * Kernel.upwindU2 vc f :=
  ⟨⟨Kernel.firstW2_safe f, rfl⟩, ⟨Kernel.upwindW3_safe vc f, Kernel.upwindW3_value vc f⟩, Kernel.firstW2_between f,
    Kernel.upwindW3_blend vc f⟩

end HaloMesh
