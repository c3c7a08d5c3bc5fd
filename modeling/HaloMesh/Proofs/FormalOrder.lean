import Mathlib.Algebra.Polynomial.Taylor
import HaloMesh.Proofs.ExactArithmetic

/-! How exact the difference kernels are. Over exact arithmetic a kernel differentiates polynomials up to its formal
order without error, wherever its output lies between the points of its input, and none reads a point beyond its
width. -/

namespace HaloMesh

open Polynomial

/-- Where point `j` of an input lies. Input at a low location lies half a cell below its index. -/
noncomputable def Offset.inputAt (o : Offset) (j : Int) : ℝ := if o = .toCentre then j - 1 / 2 else j

/-- Where the output of index `i` lies. -/
noncomputable def Offset.outputAt (o : Offset) (i : Int) : ℝ := if o = .toLow then i - 1 / 2 else i

/-- Staggered kernels are for output half a cell from the input, all others for output in the same place. -/
def Offset.Suits (o : Offset) (family : Family) : Prop := family.staggered = true ↔ o ≠ .centred

/-- How often a kind of derivative differentiates. -/
def Kind.times : Kind → Nat
  | .first => 1
  | .second => 2
  | .fourth => 4
  | .upwind => 1
  | .flux => 1

/-- The greatest degree of a polynomial of which the kernel of a method gives the exact derivative. -/
def Family.formalOrder : Family → Method → Option Nat
  | ⟨.first, false⟩, .c2 => some 2
  | ⟨.first, false⟩, .w2 => some 1
  | ⟨.first, false⟩, .c4 => some 4
  | ⟨.first, false⟩, .s2 => some 3
  | ⟨.second, false⟩, .c2 => some 3
  | ⟨.second, false⟩, .c4 => some 5
  | ⟨.fourth, false⟩, .c2 => some 5
  | ⟨.first, true⟩, .c2 => some 2
  | ⟨.first, true⟩, .c4 => some 4
  | ⟨.second, true⟩, .c2 => some 3
  | ⟨.upwind, false⟩, .u1 => some 1
  | ⟨.upwind, false⟩, .u2 => some 2
  | ⟨.upwind, false⟩, .u3 => some 3
  | ⟨.upwind, false⟩, .c2 => some 2
  | ⟨.upwind, false⟩, .c4 => some 4
  | ⟨.upwind, false⟩, .w3 => some 2
  | _, _ => none

/-- The value at distance `h` of a polynomial with these coefficients. -/
noncomputable def expansion (c : Nat → ℝ) (n : Nat) (h : ℝ) : ℝ := ∑ k ∈ Finset.range (n + 1), c k * h ^ k

/-- A polynomial around a point, by its derivatives there. -/
theorem eval_expansion {p : ℝ[X]} {n : Nat} (low : p.natDegree ≤ n) (x h : ℝ) :
    p.eval (x + h) = expansion (fun k => (taylor x p).coeff k) n h := by
  have short : (taylor x p).natDegree < n + 1 := by
    rw [natDegree_taylor]
    omega
  rw [add_comm, ← taylor_eval, eval_eq_sum_range' short]
  rfl

theorem iterate_derivative_eval (p : ℝ[X]) (k : Nat) (x : ℝ) :
    (derivative^[k] p).eval x = k.factorial * (taylor x p).coeff k := by
  rw [taylor_coeff, ← factorial_smul_hasseDeriv, LinearMap.smul_apply, eval_smul, nsmul_eq_mul]

namespace Window

section Trim

variable {α : Type} [Scalar α]

/-- The points within `width` of the output, and zero beyond. -/
def trim (width : Nat) (w : Window α) : Window α :=
  match width with
  | 0 => ⟨0, 0, w.c, 0, 0⟩
  | 1 => ⟨0, w.m, w.c, w.p, 0⟩
  | _ + 2 => w

theorem trim_trim (width : Nat) (w : Window α) : (w.trim width).trim width = w.trim width := by
  match width with
  | 0 => rfl
  | 1 => rfl
  | _ + 2 => rfl

theorem on_trim (line : Int → α) (i : Int) (o : Offset) (width : Nat) : on line i o width = (on line i o 2).trim width := by
  match width with
  | 0 => rfl
  | 1 => rfl
  | n + 2 =>
    have reaches : ¬ ((n + 2 : Nat) : Int) < 1 := by omega
    have wide : ¬ ((n + 2 : Nat) : Int) ≤ 1 := by omega
    simp only [on, gather, gatherAround, if_neg reaches, if_neg wide]
    rfl

end Trim

/-- The values of a function around a point, a unit apart. -/
noncomputable def around (q : ℝ → ℝ) : Window ℝ := ⟨q (-2), q (-1), q 0, q 1, q 2⟩

/-- The values of a function around a point that lies between two of them, and any value in the middle. -/
noncomputable def between (q : ℝ → ℝ) (c : ℝ) : Window ℝ := ⟨q (-3 / 2), q (-1 / 2), c, q (1 / 2), q (3 / 2)⟩

theorem on_centred (p : ℝ → ℝ) (i : Int) :
    on (fun j => p (Offset.centred.inputAt j)) i .centred 2 = around fun h => p (Offset.centred.outputAt i + h) := by
  have place (j : Int) : Offset.centred.inputAt j = j := if_neg (by decide)
  have output : Offset.centred.outputAt i = i := if_neg (by decide)
  change (⟨p _, p _, p _, p _, p _⟩ : Window ℝ) = _
  simp only [around, place, output]
  congr 2 <;> push_cast <;> ring

theorem on_between {o : Offset} (off : o ≠ .centred) (p : ℝ → ℝ) (i : Int) : ∃ c,
    on (fun j => p (o.inputAt j)) i o 2 = between (fun h => p (o.outputAt i + h)) c := by
  refine ⟨p (o.inputAt i), ?_⟩
  change (⟨p _, p _, p _, p _, p _⟩ : Window ℝ) = _
  cases o with
  | centred => exact absurd rfl off
  | toLow =>
    have place (j : Int) : Offset.toLow.inputAt j = j := if_neg (by decide)
    have output : Offset.toLow.outputAt i = i - 1 / 2 := if_pos rfl
    simp only [between, place, output]
    congr 2 <;> push_cast <;> ring
  | toCentre =>
    have place (j : Int) : Offset.toCentre.inputAt j = j - 1 / 2 := if_pos rfl
    have output : Offset.toCentre.outputAt i = i := if_neg (by decide)
    simp only [between, place, output]
    congr 2 <;> push_cast <;> ring

end Window

namespace Kernel

section Width

variable {α : Type} [Scalar α] {family : Family} {method : Method} {k : Kernel α} {line : Int → α} {i : Int} {o : Offset}

/-- No kernel reads a point beyond its width. -/
theorem apply_trim (made : of? family method = some k) (v f : Window α) :
    k.apply (v.trim k.width) (f.trim k.width) = k.apply v f := by
  obtain ⟨kind, staggered⟩ := family
  cases kind <;> cases staggered <;> cases method <;> simp [of?] at made <;> subst made <;> rfl

theorem apply_field (made : of? family method = some k) (v : Window α) :
    k.apply v (Window.on line i o k.width) = k.apply v (Window.on line i o 2) := by
  rw [Window.on_trim line i o k.width, ← apply_trim made v, Window.trim_trim, apply_trim made]

theorem apply_velocity (made : of? family method = some k) (f : Window α) :
    k.apply (Window.on line i o k.width) f = k.apply (Window.on line i o 2) f := by
  rw [Window.on_trim line i o k.width, ← apply_trim made _ f, Window.trim_trim, apply_trim made]

end Width

variable {family : Family} {method : Method} {k : Kernel ℝ} {n : Nat}

theorem scientific_eq (m e : Nat) : @OfScientific.ofScientific ℝ Scalar.instOfScientificScalar m true e = m / 10 ^ e := rfl

theorem smoothnessFloor_pos : 0 < (smoothnessFloor : ℝ) := by
  rw [smoothnessFloor, scientific_eq]
  norm_num

theorem weight_pos {w rough : ℝ} (positive : 0 < w) (low : 0 ≤ rough) : 0 < w / Scalar.square (smoothnessFloor + rough) :=
  div_pos positive (mul_self_pos.mpr (ne_of_gt (add_pos_of_pos_of_nonneg smoothnessFloor_pos low)))

/-- Weights by smoothness do not matter where all differences are the same. -/
theorem firstW2_straight {f : Window ℝ} {s : ℝ} (below : f.c - f.m = s) (above : f.p - f.c = s) : firstW2 f = s := by
  have across : 1 / 2 * (f.p - f.m) = s := by linarith
  -- the weights are positive, whatever they are, and the mean of equal slopes is the slope
  have mean (a b c : ℝ) (first : 0 < a) (second : 0 < b) (third : 0 < c) : (a * s + b * s + c * s) / (a + b + c) = s := by
    rw [← add_mul, ← add_mul]
    exact mul_div_cancel_left₀ s (by positivity)
  have quarter : 0 < (@OfScientific.ofScientific ℝ Scalar.instOfScientificScalar 25 true 2) := by
    rw [scientific_eq]
    norm_num
  have flat : 0 ≤ Scalar.square s := mul_self_nonneg s
  have bend (a b : ℝ) :
      0 ≤ (@OfNat.ofNat ℝ 13 (Scalar.instOfNatScalar 13) / @OfNat.ofNat ℝ 3 (Scalar.instOfNatScalar 3)) * Scalar.square a +
        @OfScientific.ofScientific ℝ Scalar.instOfScientificScalar 25 true 2 * Scalar.square b := by
    rw [Exact.ofNat_eq, Exact.ofNat_eq]
    exact add_nonneg (mul_nonneg (by norm_num) (mul_self_nonneg a)) (mul_nonneg quarter.le (mul_self_nonneg b))
  unfold firstW2
  simp only [below, above, Exact.half_eq, across]
  exact mean _ _ _ (weight_pos quarter flat) (weight_pos quarter flat) (weight_pos (by norm_num) (bend _ _))

/-- Without third differences nothing is taken off the central difference. -/
theorem upwindW3_bent {f : Window ℝ} (below : -f.mm + 3 * f.m - 3 * f.c + f.p = 0)
    (above : -f.m + 3 * f.c - 3 * f.p + f.pp = 0) (vc : ℝ) : upwindW3 vc f = vc * (1 / 2 * (f.p - f.m)) := by
  simp only [upwindW3, Exact.ofNat_eq, Exact.half_eq]
  push_cast
  split <;> simp only [below, above, mul_zero, sub_zero]

theorem apply_around (made : of? family method = some k) (order : family.formalOrder method = some n)
    (straight : family.staggered = false) (v : Window ℝ) (c : Nat → ℝ) :
    k.apply v (.around (expansion c n)) =
      .ok ((if family.kind.isFlow then v.c else 1) * (family.kind.times.factorial * c family.kind.times)) := by
  obtain ⟨kind, staggered⟩ := family
  obtain rfl : staggered = false := straight
  cases kind <;> cases method <;> simp [Family.formalOrder] at order <;> subst order <;>
    simp [of?] at made <;> subst made <;>
    simp only [apply, Window.around, expansion, Finset.sum_range_succ, Finset.sum_range_zero, Kind.times, Kind.isFlow,
      Nat.factorial, Bool.false_eq_true, ↓reduceIte] <;>
    refine congrArg Except.ok ?_
  case first.c2 =>
    simp only [firstC2, Exact.half_eq]
    push_cast
    ring
  case first.c4 =>
    simp only [firstC4, Exact.ofNat_eq]
    push_cast
    ring
  case first.w2 =>
    rw [firstW2_straight (s := c 1) (by ring) (by ring)]
    push_cast
    ring
  case first.s2 =>
    simp only [firstS2, Exact.ofNat_eq]
    push_cast
    ring
  case second.c2 =>
    simp only [secondC2, Exact.ofNat_eq]
    push_cast
    ring
  case second.c4 =>
    simp only [secondC4, Exact.ofNat_eq]
    push_cast
    ring
  case fourth.c2 =>
    simp only [fourthC2, Exact.ofNat_eq]
    push_cast
    ring
  case upwind.u1 =>
    simp only [upwindU1]
    split <;> push_cast <;> ring
  case upwind.u2 =>
    simp only [upwindU2, scientific_eq, Exact.ofNat_eq]
    split <;> push_cast <;> ring
  case upwind.u3 =>
    simp only [upwindU3, Exact.ofNat_eq]
    split <;> push_cast <;> ring
  case upwind.c2 =>
    simp only [upwindC2, Exact.half_eq]
    push_cast
    ring
  case upwind.c4 =>
    simp only [upwindC4, Exact.ofNat_eq]
    push_cast
    ring
  case upwind.w3 =>
    rw [upwindW3_bent (by ring) (by ring)]
    push_cast
    ring

theorem apply_between (made : of? family method = some k) (order : family.formalOrder method = some n)
    (staggered : family.staggered = true) (v : Window ℝ) (c : Nat → ℝ) (middle : ℝ) :
    k.apply v (.between (expansion c n) middle) =
      .ok ((if family.kind.isFlow then v.c else 1) * (family.kind.times.factorial * c family.kind.times)) := by
  obtain ⟨kind, _⟩ := family
  obtain rfl := staggered
  cases kind <;> cases method <;> simp [Family.formalOrder] at order <;> subst order <;>
    simp [of?] at made <;> subst made <;>
    simp only [apply, Window.between, expansion, Finset.sum_range_succ, Finset.sum_range_zero, Kind.times, Kind.isFlow,
      Nat.factorial, Bool.false_eq_true, ↓reduceIte] <;>
    refine congrArg Except.ok ?_
  case first.c2 =>
    simp only [staggeredFirstC2]
    push_cast
    ring
  case first.c4 =>
    simp only [staggeredFirstC4, Exact.ofNat_eq]
    push_cast
    ring
  case second.c2 =>
    simp only [staggeredSecondC2, Exact.ofNat_eq]
    push_cast
    ring

end Kernel

variable {family : Family} {method : Method} {k : Kernel ℝ}

/-- Every kernel has its formal order and needs no point beyond its width. -/
theorem kernels_exact_to_order (made : Kernel.of? family method = some k) :
    (∀ n, family.formalOrder method = some n → ∀ o : Offset, o.Suits family → ∀ p : ℝ[X], p.natDegree ≤ n →
      ∀ (i : Int) (v : Window ℝ), k.apply v (Window.on (fun j => p.eval (o.inputAt j)) i o k.width) =
        .ok ((if family.kind.isFlow then v.c else 1) * (derivative^[family.kind.times] p).eval (o.outputAt i))) ∧
    ∀ (velocity line : Int → ℝ) (i : Int) (o o' : Offset),
      k.apply (Window.on velocity i o k.width) (Window.on line i o' k.width) =
        k.apply (Window.on velocity i o 2) (Window.on line i o' 2) := by
  refine ⟨fun n order o suits p low i v => ?_, fun velocity line i o o' => ?_⟩
  rotate_left
  · rw [Kernel.apply_field made, Kernel.apply_velocity made]
  let q : ℝ → ℝ := fun h => p.eval (o.outputAt i + h)
  let c : Nat → ℝ := fun j => (taylor (o.outputAt i) p).coeff j
  have expanded : q = expansion c n := funext fun h => eval_expansion low (o.outputAt i) h
  rw [Kernel.apply_field made, iterate_derivative_eval]
  cases straight : family.staggered with
  | false =>
    obtain rfl : o = .centred := by
      by_contra off
      exact absurd (suits.mpr off) (by simp [straight])
    rw [Window.on_centred fun x => p.eval x]
    change k.apply v (.around q) = _
    rw [expanded]
    exact Kernel.apply_around made order straight v c
  | true =>
    obtain ⟨middle, between⟩ := Window.on_between (suits.mp straight) (fun x => p.eval x) i
    rw [between]
    change k.apply v (.between q middle) = _
    rw [expanded]
    exact Kernel.apply_between made order straight v c middle

/-- A cubic, carried down by upwinding to third order. -/
theorem kernels_exact_to_order_cubic : ∃ k, Kernel.of? ⟨.upwind, false⟩ .u3 = some k ∧
    k.apply ⟨0, 0, -1, 0, 0⟩ (Window.on (fun j => (X ^ 3 : ℝ[X]).eval (Offset.centred.inputAt j)) 2 .centred k.width) =
      .ok (-12) := by
  refine ⟨_, rfl, ?_⟩
  have made : Kernel.of? ⟨.upwind, false⟩ .u3 =
      some (⟨.u3, ⟨.upwind, false⟩, 2, false, .upwind Kernel.upwindU3⟩ : Kernel ℝ) := rfl
  rw [(kernels_exact_to_order made).1 3 rfl .centred (by simp [Offset.Suits]) (X ^ 3) (natDegree_X_pow_le 3) 2
    ⟨0, 0, -1, 0, 0⟩]
  refine congrArg Except.ok ?_
  simp [Kind.isFlow, Kind.times, Offset.outputAt]
  norm_num

end HaloMesh
