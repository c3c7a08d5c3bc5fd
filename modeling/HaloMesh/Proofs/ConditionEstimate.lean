import Mathlib.Analysis.Real.Sqrt
import HaloMesh.Proofs.MetricInverse

/-! The condition of diagonal matrices. Every unknown is found by itself there and nothing grows on the way, so that the
estimate comes to a number, and matrices with moderate numbers on the diagonal have an inverse. -/

namespace HaloMesh

namespace Condition

theorem huge_large : (1000 : ℝ) < huge := by
  have power : (huge : ℝ) = 2 ^ 970 := by
    simp only [huge, Scalar.wholePower, Exact.ofNat_eq]
    exact zpow_natCast _ 970
  rw [power]
  calc (1000 : ℝ) < 2 ^ 10 := by norm_num
    _ ≤ 2 ^ 970 := pow_le_pow_right₀ (by norm_num) (by norm_num)

theorem tiny_range : (0 : ℝ) < tiny ∧ (tiny : ℝ) < 1 / 1000 := by
  have inverse : (tiny : ℝ) = 1 / huge := by
    simp only [tiny, huge, Scalar.wholePower]
    rw [one_div, ← zpow_neg]
  have large := huge_large
  rw [inverse]
  exact ⟨by positivity, one_div_lt_one_div_of_lt (by norm_num) large⟩

theorem maximum_eq (a b : ℝ) : Scalar.maximum a b = max a b := by
  simp only [Scalar.maximum, Scalar.isInfinite, Scalar.isUndefined, Scalar.lt, Bool.false_and, Bool.false_eq_true,
    ↓reduceIte, decide_eq_true_eq, max_def]
  grind

theorem minimum_eq (a b : ℝ) : minimum a b = min a b := by
  rw [minimum, maximum_eq, max_neg_neg, neg_neg]

/-- A triangle with nothing beside a diagonal of numbers from one to eight. -/
structure Triangle.Diagonal (t : Triangle ℝ) : Prop where
  beside : ∀ i < size, ∀ j < size, i ≠ j → t.entry i j = 0
  diagonal : ∀ j < size, 1 ≤ t.entry j j ∧ t.entry j j ≤ 8

namespace Triangle.Diagonal

variable {t : Triangle ℝ} (flat : t.Diagonal)

theorem order_lt {j : Nat} (member : j ∈ t.order) : j < size := by
  unfold Triangle.order at member
  split at member <;> simpa using member

theorem column_lt {i j : Nat} (member : i ∈ t.column j) : i < size ∧ i ≠ j := by
  simp only [Triangle.column, List.mem_filter, List.mem_range] at member
  obtain ⟨inside, side⟩ := member
  split at side <;> simp only [decide_eq_true_eq] at side <;> exact ⟨inside, by omega⟩

theorem row_lt {i j : Nat} (member : j ∈ t.row i) : j < size ∧ i ≠ j := by
  simp only [Triangle.row, List.mem_filter, List.mem_range] at member
  obtain ⟨inside, side⟩ := member
  split at side <;> simp only [decide_eq_true_eq] at side <;> exact ⟨inside, by omega⟩

include flat

theorem columnSum_eq {j : Nat} (inside : j < size) : t.columnSum j = 0 := by
  have still (rows : List Nat) (within : ∀ i ∈ rows, i < size ∧ i ≠ j) :
      rows.foldl (fun s i => s + Scalar.abs (t.entry i j)) 0 = 0 := by
    induction rows with
    | nil => rfl
    | cons i rest ih =>
      obtain ⟨bound, apart⟩ := within i List.mem_cons_self
      have zero : (0 : ℝ) + Scalar.abs (t.entry i j) = 0 := by
        rw [flat.beside i bound j inside apart]
        exact (zero_add _).trans abs_zero
      rw [List.foldl_cons, zero]
      exact ih fun k member => within k (List.mem_cons_of_mem _ member)
  rw [Triangle.columnSum, Exact.zero_eq]
  exact still _ fun i member => column_lt member

theorem reduction_eq : t.reduction = (1, #[0, 0, 0]) := by
  have sums : ((List.range size).map t.columnSum).toArray = #[0, 0, 0] := by
    change #[t.columnSum 0, t.columnSum 1, t.columnSum 2] = _
    rw [flat.columnSum_eq (by decide), flat.columnSum_eq (by decide), flat.columnSum_eq (by decide)]
  have none (k : Nat) : (#[0, 0, 0] : Array ℝ).getD k (@OfNat.ofNat ℝ 0 (Scalar.instOfNatScalar 0)) = 0 := by
    rcases k with _ | _ | _ | k
    · rfl
    · rfl
    · rfl
    · exact Exact.zero_eq
  have small : Scalar.le (largestSize (#[0, 0, 0] : Array ℝ) (List.range size)) huge = true := by
    rw [largestSize, none]
    refine decide_eq_true ?_
    have := huge_large
    exact abs_zero.le.trans (by linarith)
  unfold Triangle.reduction
  simp only [sums, small, ↓reduceIte, Exact.ofNat_eq, Nat.cast_one]

omit flat in
theorem untilTiny_still {f : Nat → ℝ × ℝ → ℝ × ℝ} {finish : ℝ × ℝ → ℝ} {g : ℝ × ℝ} (large : tiny < g.1) {order : List Nat}
    (still : ∀ j ∈ order, f j g = g) : untilTiny f finish order g = finish g := by
  induction order with
  | nil => rfl
  | cons j rest ih =>
    have apart : Scalar.le g.1 tiny = false := decide_eq_false (not_le.mpr large)
    rw [untilTiny, apart, still j List.mem_cons_self]
    exact ih fun k member => still k (List.mem_cons_of_mem _ member)

theorem tiny_lt_bound {largest : ℝ} (small : largest ≤ 8) : tiny < t.reciprocalBound #[0, 0, 0] largest := by
  have range := tiny_range
  have none {j : Nat} (inside : j < size) : (#[0, 0, 0] : Array ℝ).getD j 0 = 0 := by
    unfold size at inside
    interval_cases j <;> rfl
  obtain ⟨start, begins, low⟩ : ∃ start : ℝ, 1 / Scalar.maximum largest tiny = start ∧ 1 / 8 ≤ start := by
    refine ⟨_, rfl, ?_⟩
    rw [maximum_eq]
    exact one_div_le_one_div_of_le (lt_max_of_lt_right range.1) (max_le small (by linarith))
  have large : tiny < start := by linarith
  have large' : tiny < min 1 start := lt_min (by linarith) large
  obtain ⟨entry, upper, transposed⟩ := t
  unfold Triangle.reciprocalBound
  simp only [Exact.ofNat_eq, Nat.cast_one, Nat.cast_zero, begins, minimum_eq]
  cases transposed <;> cases upper <;> dsimp only
  case false.false =>
    rw [untilTiny_still large' fun j member => ?_]
    · exact large'
    · rw [none (order_lt member)]
      norm_num
  case true.false =>
    rw [untilTiny_still large' fun j member => ?_]
    · exact large'
    · rw [none (order_lt member)]
      norm_num
  case false.true =>
    rw [untilTiny_still large fun j member => ?_]
    · exact large
    · obtain ⟨above, below⟩ := flat.diagonal j (order_lt member)
      have size : Scalar.abs (entry j j) = entry j j := abs_of_nonneg (le_trans zero_le_one above)
      have wide : Scalar.le tiny (entry j j + 0) = true := decide_eq_true (by linarith)
      rw [none (order_lt member), size, wide, if_pos rfl, add_zero, div_self (by linarith), mul_one, min_eq_left above, one_mul,
        min_self]
  case true.true =>
    rw [untilTiny_still large fun j member => ?_]
    · exact lt_min large large
    · obtain ⟨above, below⟩ := flat.diagonal j (order_lt member)
      have size : Scalar.abs (entry j j) = entry j j := abs_of_nonneg (le_trans zero_le_one above)
      have narrow : Scalar.lt (entry j j) (1 + 0) = false := decide_eq_false (by linarith)
      rw [none (order_lt member), size, narrow, add_zero, div_one, min_self]
      rfl

/-- Each unknown is found by itself. -/
theorem plainSolution_eq (b : Array ℝ) :
    t.plainSolution b = t.order.foldl (fun x i => x.setIfInBounds i (t.divided i (x.getD i 0))) b := by
  have beside {i j : Nat} (inside : i < size) (member : j ∈ t.row i) : t.entry i j = 0 :=
    flat.beside i inside j (row_lt member).1 (row_lt member).2
  have taken (v : ℝ) (columns : List Nat) (i : Nat) (zero : ∀ j ∈ columns, t.entry i j = 0) (x : Array ℝ) :
      columns.foldl (fun x j => x.setIfInBounds j (x.getD j 0 - t.entry i j * v)) x = x := by
    induction columns with
    | nil => rfl
    | cons j rest ih =>
      have same : x.setIfInBounds j (x.getD j 0 - t.entry i j * v) = x := by
        rw [zero j List.mem_cons_self, zero_mul, sub_zero]
        refine Array.ext (by simp) fun k _ inside => ?_
        rw [Array.getElem_setIfInBounds]
        split
        next here =>
          subst here
          simp [Array.getD_eq_getD_getElem?, inside]
        · rfl
      rw [List.foldl_cons, same]
      exact ih fun k member => zero k (List.mem_cons_of_mem _ member)
  have summed (x : Array ℝ) (columns : List Nat) (i : Nat) (zero : ∀ j ∈ columns, t.entry i j = 0) :
      columns.foldl (fun s j => s + t.entry i j * x.getD j 0) 0 = 0 := by
    induction columns with
    | nil => rfl
    | cons j rest ih =>
      rw [List.foldl_cons, zero j List.mem_cons_self, zero_mul, add_zero]
      exact ih fun k member => zero k (List.mem_cons_of_mem _ member)
  unfold Triangle.plainSolution
  refine List.foldl_ext _ _ _ fun x i member => ?_
  have inside := order_lt member
  simp only [Exact.zero_eq]
  split
  · exact taken _ _ i (fun j member => beside inside member) _
  · rw [summed x _ i fun j member => beside inside member, sub_zero]

theorem solve_eq {p q s : ℝ} (within : |p| ≤ 8 ∧ |q| ≤ 8 ∧ |s| ≤ 8) :
    t.solve #[p, q, s] = (#[t.divided 0 p, t.divided 1 q, t.divided 2 s], 1) := by
  have small : largestSize #[p, q, s] (List.range size) ≤ 8 := by
    unfold largestSize
    rcases largestAt #[p, q, s] (List.range size) with _ | _ | _ | k
    · exact within.1
    · exact within.2.1
    · exact within.2.2
    · change |(#[p, q, s] : Array ℝ).getD (k + 3) _| ≤ 8
      rw [Exact.zero_eq]
      simp
  have bound := flat.tiny_lt_bound small
  have solved : t.plainSolution #[p, q, s] = #[t.divided 0 p, t.divided 1 q, t.divided 2 s] := by
    rw [flat.plainSolution_eq]
    unfold Triangle.order
    split <;> rfl
  unfold Triangle.solve
  rw [flat.reduction_eq, solved]
  have safe : Scalar.lt tiny (t.reciprocalBound #[0, 0, 0] (largestSize #[p, q, s] (List.range size)) * 1) = true :=
    decide_eq_true (by rwa [mul_one])
  have one : Scalar.same (1 : ℝ) 1 = true := decide_eq_true rfl
  simp only [Exact.ofNat_eq, Nat.cast_one, one, ↓reduceIte, safe]

end Triangle.Diagonal

/-- Three numbers from one to eight. -/
structure Moderate (a b c : ℝ) : Prop where
  first : 1 ≤ a ∧ a ≤ 8
  second : 1 ≤ b ∧ b ≤ 8
  third : 1 ≤ c ∧ c ≤ 8

section Diagonal

variable {a b c : ℝ}

/-- The factors of a diagonal matrix. -/
def diagonalFactors (a b c : ℝ) : Factors ℝ := ⟨0, 0, 0, a, 0, 0, b, 0, c⟩

theorem directions_nonneg {p q s : ℝ} (nonneg : 0 ≤ p ∧ 0 ≤ q ∧ 0 ≤ s) : directions #[p, q, s] = #[1, 1, 1] := by
  have ahead {v : ℝ} (nonneg : 0 ≤ v) : direction v = 1 := by
    have inverse : ¬ 1 / v < 0 := not_lt.mpr (one_div_nonneg.mpr nonneg)
    simp only [direction, Scalar.lt, Exact.ofNat_eq, Nat.cast_zero, Nat.cast_one, not_lt.mpr nonneg, inverse, decide_false,
      Bool.and_false, Bool.or_false, Bool.false_eq_true, ↓reduceIte]
  simp only [directions, List.map_toArray, List.map_cons, List.map_nil, ahead nonneg.1, ahead nonneg.2.1, ahead nonneg.2.2]

theorem absSum_eq (p q s : ℝ) : absSum #[p, q, s] = |p| + |q| + |s| := by
  simp only [absSum, Scalar.abs, Exact.zero_eq, List.foldl_toArray, List.foldl_cons, List.foldl_nil, zero_add]

theorem largestAt_lt (x : Array ℝ) : largestAt x (List.range size) < size := by
  unfold largestAt
  simp only [size, show List.range 3 = [0, 1, 2] from rfl, List.foldl_cons, List.foldl_nil]
  split_ifs <;> decide

variable (moderate : Moderate a b c)
include moderate

theorem Moderate.triangle (upper transposed : Bool) :
    (⟨(diagonalFactors a b c).entry, upper, transposed⟩ : Triangle ℝ).Diagonal := by
  constructor
  · intro i first j second apart
    unfold size at first second
    interval_cases i <;> interval_cases j <;> first | rfl | exact absurd rfl apart
  · intro j inside
    unfold size at inside
    interval_cases j
    · exact moderate.first
    · exact moderate.second
    · exact moderate.third

theorem Moderate.solveBoth?_eq (transposed : Bool) {p q s : ℝ} (within : |p| ≤ 8 ∧ |q| ≤ 8 ∧ |s| ≤ 8) :
    solveBoth? (diagonalFactors a b c).entry transposed #[p, q, s] = some #[p / a, q / b, s / c] := by
  have smaller {v d : ℝ} (range : 1 ≤ d ∧ d ≤ 8) (within : |v| ≤ 8) : |v / d| ≤ 8 := by
    rw [abs_div]
    exact (div_le_self (abs_nonneg v) (range.1.trans (le_abs_self d))).trans within
  have within' : |p / a| ≤ 8 ∧ |q / b| ≤ 8 ∧ |s / c| ≤ 8 :=
    ⟨smaller moderate.first within.1, smaller moderate.second within.2.1, smaller moderate.third within.2.2⟩
  have one : Scalar.same (1 * 1 : ℝ) (@OfNat.ofNat ℝ 1 (Scalar.instOfNatScalar 1)) = true :=
    decide_eq_true (by rw [Exact.ofNat_eq, Nat.cast_one, mul_one])
  -- the upper factor divides by its diagonal, the lower one has ones there
  have upper (t : Bool) : (⟨(diagonalFactors a b c).entry, true, t⟩ : Triangle ℝ).solve #[p, q, s] =
      (#[p / a, q / b, s / c], 1) := (moderate.triangle true t).solve_eq within
  have lower (t : Bool) {p q s : ℝ} (within : |p| ≤ 8 ∧ |q| ≤ 8 ∧ |s| ≤ 8) :
      (⟨(diagonalFactors a b c).entry, false, t⟩ : Triangle ℝ).solve #[p, q, s] = (#[p, q, s], 1) :=
    (moderate.triangle false t).solve_eq within
  cases transposed with
  | true =>
    simp only [solveBoth?, Bool.not_true]
    rw [upper true]
    dsimp only
    rw [lower true within']
    exact if_pos one
  | false =>
    simp only [solveBoth?, Bool.not_false]
    rw [lower false within]
    dsimp only
    rw [upper false]
    exact if_pos one

/-- The column that is looked at first is the last. -/
theorem Moderate.climb_eq {k : Nat} (inside : k < size) (estimate : ℝ) : ∃ n : ℝ, 0 < n ∧ n ≤ 1 ∧
    climb (diagonalFactors a b c).entry 4 k #[1, 1, 1] estimate = some n := by
  obtain ⟨first, second, third⟩ := id moderate
  have agree : sameDirections (#[1, 1, 1] : Array ℝ) #[1, 1, 1] = true := by
    simp [sameDirections, size, List.range_succ, Scalar.same]
  have found {p q s : ℝ} (unit : unitVector k = #[p, q, s]) (within : |p| ≤ 8 ∧ |q| ≤ 8 ∧ |s| ≤ 8)
      (nonneg : 0 ≤ p / a ∧ 0 ≤ q / b ∧ 0 ≤ s / c) : climb (diagonalFactors a b c).entry 4 k #[1, 1, 1] estimate =
        some (p / a + q / b + s / c) := by
    rw [climb, unit, moderate.solveBoth?_eq true within]
    simp only [Option.bind_eq_bind, Option.bind_some, directions_nonneg nonneg, agree, absSum_eq, Bool.true_or, ↓reduceIte,
      abs_of_nonneg nonneg.1, abs_of_nonneg nonneg.2.1, abs_of_nonneg nonneg.2.2]
    rfl
  have range {d : ℝ} (range : 1 ≤ d ∧ d ≤ 8) : 0 < 1 / d ∧ 1 / d ≤ 1 :=
    ⟨one_div_pos.mpr (by linarith), (div_le_one (by linarith)).mpr range.1⟩
  unfold size at inside
  interval_cases k
  · refine ⟨1 / a, (range first).1, (range first).2, ?_⟩
    rw [found (p := 1) (q := 0) (s := 0) (by simp [unitVector, size, List.range_succ, Exact.ofNat_eq]) (by norm_num)
      ⟨(range first).1.le, by simp, by simp⟩, zero_div, zero_div, add_zero, add_zero]
  · refine ⟨1 / b, (range second).1, (range second).2, ?_⟩
    rw [found (p := 0) (q := 1) (s := 0) (by simp [unitVector, size, List.range_succ, Exact.ofNat_eq]) (by norm_num)
      ⟨by simp, (range second).1.le, by simp⟩, zero_div, zero_div, add_zero, zero_add]
  · refine ⟨1 / c, (range third).1, (range third).2, ?_⟩
    rw [found (p := 0) (q := 0) (s := 1) (by simp [unitVector, size, List.range_succ, Exact.ofNat_eq]) (by norm_num)
      ⟨by simp, by simp, (range third).1.le⟩, zero_div, zero_div, add_zero, zero_add]

theorem Moderate.inverseNorm?_eq : ∃ n : ℝ, 0 < n ∧ n ≤ 1 ∧ inverseNorm? (diagonalFactors a b c).entry = some n := by
  obtain ⟨first, second, third⟩ := id moderate
  have part (v : ℝ) {d : ℝ} (range : 1 ≤ d ∧ d ≤ 8) : |v / d| ≤ |v| := by
    rw [abs_div]
    exact div_le_self (abs_nonneg v) (range.1.trans (le_abs_self d))
  have share {d : ℝ} (range : 1 ≤ d ∧ d ≤ 8) : 0 ≤ 1 / 3 / d := div_nonneg (by norm_num) (by linarith)
  have small : |(1 / 3 : ℝ)| ≤ 8 := by norm_num [abs_of_pos]
  have start := moderate.solveBoth?_eq true ⟨small, small, small⟩
  have signs := directions_nonneg ⟨share first, share second, share third⟩
  have back := moderate.solveBoth?_eq false (p := 1) (q := 1) (s := 1) (by norm_num)
  obtain ⟨n, positive, least, climbed⟩ := moderate.climb_eq (largestAt_lt #[1 / a, 1 / b, 1 / c])
    (absSum #[1 / 3 / a, 1 / 3 / b, 1 / 3 / c])
  have tested := moderate.solveBoth?_eq true (p := 1) (q := -(15 / 10)) (s := 2) (by norm_num [abs_of_neg])
  have test : @OfScientific.ofScientific ℝ Scalar.instOfScientificScalar 15 true 1 = 15 / 10 := by
    change ((15 : Nat) : ℝ) / 10 ^ 1 = 15 / 10
    norm_num
  have evaluated : inverseNorm? (diagonalFactors a b c).entry =
      let other := 2 * absSum #[1 / a, -(15 / 10) / b, 2 / c] / 9
      some (if Scalar.lt n other then other else n) := by
    unfold inverseNorm?
    simp only [Exact.ofNat_eq, test]
    simp only [Nat.cast_one, Nat.cast_ofNat]
    rw [start]
    simp only [Option.bind_eq_bind, Option.bind_some, signs, back, climbed, tested]
    rfl
  rw [evaluated]
  dsimp only
  by_cases better : n < 2 * absSum #[1 / a, -(15 / 10) / b, 2 / c] / 9
  · refine ⟨_, positive.trans better, ?_, congrArg some (if_pos (decide_eq_true better))⟩
    have sizes := add_le_add (add_le_add (part 1 first) (part (-(15 / 10)) second)) (part 2 third)
    have total : |(1 : ℝ)| + |(-(15 / 10) : ℝ)| + |(2 : ℝ)| = 9 / 2 := by norm_num [abs_of_neg]
    rw [absSum_eq]
    linarith
  · exact ⟨n, positive, least, congrArg some (if_neg (ne_true_of_eq_false (decide_eq_false better)))⟩

/-- The condition of a diagonal matrix stays far below the limit. -/
theorem Moderate.ofFactors?_eq {norm : ℝ} (range : 1 ≤ norm ∧ norm ≤ 8) :
    ∃ condition : ℝ, condition ≤ 8 ∧ ofFactors? norm (diagonalFactors a b c).entry = some condition := by
  obtain ⟨n, positive, least, found⟩ := moderate.inverseNorm?_eq
  have large : 0 < norm := by linarith
  have inverse : 0 < 1 / n / norm := by positivity
  refine ⟨1 / (1 / n / norm), ?_, ?_⟩
  · have same : 1 / (1 / n / norm) = n * norm := by field_simp
    rw [same]
    nlinarith
  · unfold ofFactors?
    rw [found]
    simp only [Exact.ofNat_eq, Scalar.isInfinite, Scalar.isUndefined, Scalar.same]
    simp only [Nat.cast_zero, Nat.cast_one, large.ne', positive.ne', inverse.ne', decide_false, Bool.or_false, Bool.false_eq_true,
      ↓reduceIte, Option.bind_eq_bind, Option.bind_some]
    rfl

end Diagonal

end Condition

open Condition in
/-- A diagonal matrix has the inverse one would expect. -/
theorem Matrix3.invert?_diagonal {a b c : ℝ} (moderate : Moderate a b c) : ∃ condition : ℝ, condition ≤ 8 ∧
    (⟨⟨a, 0, 0⟩, ⟨0, b, 0⟩, ⟨0, 0, c⟩⟩ : Matrix3 ℝ).invert? =
      some ⟨⟨⟨1 / a, 0, 0⟩, ⟨0, 1 / b, 0⟩, ⟨0, 0, 1 / c⟩⟩, some condition⟩ := by
  obtain ⟨first, second, third⟩ := id moderate
  have norm : 1 ≤ (⟨⟨a, 0, 0⟩, ⟨0, b, 0⟩, ⟨0, 0, c⟩⟩ : Matrix3 ℝ).rowNorm ∧
      (⟨⟨a, 0, 0⟩, ⟨0, b, 0⟩, ⟨0, 0, c⟩⟩ : Matrix3 ℝ).rowNorm ≤ 8 := by
    simp only [Matrix3.rowNorm, maximum_eq, Scalar.abs, abs_zero, add_zero, zero_add,
      abs_of_nonneg (zero_le_one.trans first.1), abs_of_nonneg (zero_le_one.trans second.1),
      abs_of_nonneg (zero_le_one.trans third.1)]
    exact ⟨(first.1.trans (le_max_left _ _)).trans (le_max_left _ _), max_le (max_le first.2 second.2) third.2⟩
  have larger {d : ℝ} : Scalar.lt (Scalar.abs d) (Scalar.abs 0) = false :=
    decide_eq_false (not_lt.mpr (abs_zero.le.trans (abs_nonneg d)))
  have apart {d : ℝ} (range : 1 ≤ d ∧ d ≤ 8) : Scalar.same d (@OfNat.ofNat ℝ 0 (Scalar.instOfNatScalar 0)) = false :=
    decide_eq_false (by rw [Exact.zero_eq]; linarith)
  have solved : ofFactorsInverse (diagonalFactors a b c) = ⟨⟨1 / a, 0, 0⟩, ⟨0, 1 / b, 0⟩, ⟨0, 0, 1 / c⟩⟩ := by
    simp only [ofFactorsInverse, diagonalFactors, Exact.ofNat_eq]
    norm_num
  obtain ⟨condition, least, estimated⟩ := moderate.ofFactors?_eq norm
  refine ⟨condition, least, ?_⟩
  rw [← solved, ← estimated]
  unfold invert?
  simp only [larger, Bool.false_eq_true, ↓reduceIte, divideBoth_eq, zero_div, zero_mul, sub_zero, apart first, apart second,
    apart third]
  rfl

open Condition in
theorem Symmetric.invertPoint_diagonal {a b c : ℝ} (moderate : Moderate a b c) (x y : Nat) :
    (⟨a, b, c, 0, 0, 0⟩ : Symmetric ℝ).invertPoint x y = .ok (⟨1 / a, 1 / b, 1 / c, 0, 0, 0⟩, 0) := by
  obtain ⟨first, second, third⟩ := id moderate
  obtain ⟨condition, least, inverted⟩ := Matrix3.invert?_diagonal moderate
  have limit : Scalar.lt conditionLimit condition = false := by
    refine decide_eq_false (not_lt.mpr (least.trans ?_))
    change (8 : ℝ) ≤ ((1 : Nat) : ℝ) * 10 ^ 16
    norm_num
  have exact : (((⟨⟨a, 0, 0⟩, ⟨0, b, 0⟩, ⟨0, 0, c⟩⟩ : Matrix3 ℝ).mul ⟨⟨1 / a, 0, 0⟩, ⟨0, 1 / b, 0⟩, ⟨0, 0, 1 / c⟩⟩).subOne).rowNorm =
      0 := by
    have own {d : ℝ} (range : 1 ≤ d ∧ d ≤ 8) : d ≠ 0 := by linarith
    simp only [Matrix3.rowNorm, Matrix3.mul, Matrix3.subOne, maximum_eq, Scalar.abs, Scalar.same, Exact.ofNat_eq]
    simp [own first, own second, own third]
  unfold invertPoint
  dsimp only [toMatrix]
  rw [inverted]
  dsimp only
  rw [limit, exact]
  rfl

end HaloMesh
