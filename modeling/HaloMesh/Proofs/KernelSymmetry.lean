import HaloMesh.Proofs.FormalOrder

/-! Kernels seen from the other side. On a line that is read from its other end a first derivative changes its sign
and every other derivative keeps its value, where a velocity turns with the line. Upwinding may look to either side
at rest, since nothing is carried there. -/

namespace HaloMesh

namespace Exact

theorem zero_le_iff {a : ℝ} : Scalar.le (@OfNat.ofNat ℝ 0 (Scalar.instOfNatScalar 0)) a = true ↔ 0 ≤ a := by
  rw [zero_eq]
  exact decide_eq_true_iff

theorem zero_lt_iff {a : ℝ} : Scalar.lt (@OfNat.ofNat ℝ 0 (Scalar.instOfNatScalar 0)) a = true ↔ 0 < a := by
  rw [zero_eq]
  exact decide_eq_true_iff

end Exact

namespace Window

/-- The window of a line that is read from its other end. -/
def mirror {α : Type} (w : Window α) : Window α := ⟨w.pp, w.p, w.c, w.m, w.mm⟩

/-- A velocity on a line that is read from its other end, where it has the opposite direction. -/
def turned {α : Type} [Neg α] (w : Window α) : Window α := ⟨-w.pp, -w.p, -w.c, -w.m, -w.mm⟩

end Window

namespace Kernel

section Plain

variable (f : Window ℝ)

theorem firstC2_mirror : firstC2 f.mirror = -firstC2 f := by
  simp only [firstC2, Window.mirror]
  ring

theorem firstC4_mirror : firstC4 f.mirror = -firstC4 f := by
  simp only [firstC4, Window.mirror, Exact.ofNat_eq]
  ring

/-- The weights on the two sides change places. -/
theorem firstW2_mirror : firstW2 f.mirror = -firstW2 f := by
  simp only [firstW2, Window.mirror]
  have bend : f.m - 2 * f.c + f.p = f.p - 2 * f.c + f.m := by ring
  have across : Scalar.square (f.m - f.p) = Scalar.square (f.p - f.m) := by simp only [Scalar.square]; ring
  have left : Scalar.square (f.c - f.p) = Scalar.square (f.p - f.c) := by simp only [Scalar.square]; ring
  have right : Scalar.square (f.m - f.c) = Scalar.square (f.c - f.m) := by simp only [Scalar.square]; ring
  rw [bend, across, left, right, ← neg_div]
  congr 1 <;> ring

/-- The smoothing term looks the same from both sides, so that it is left over. -/
theorem firstS2_mirror : firstS2 f.mirror = -firstS2 f + Scalar.sign f.c * fourthC2 f / 6 := by
  simp only [firstS2, fourthC2, Window.mirror, Exact.ofNat_eq]
  push_cast
  ring

theorem secondC2_mirror : secondC2 f.mirror = secondC2 f := by
  simp only [secondC2, Window.mirror]
  ring

theorem secondC4_mirror : secondC4 f.mirror = secondC4 f := by
  simp only [secondC4, Window.mirror]
  congr 1
  ring

theorem fourthC2_mirror : fourthC2 f.mirror = fourthC2 f := by
  simp only [fourthC2, Window.mirror]
  ring

theorem staggeredFirstC2_mirror : staggeredFirstC2 f.mirror = -staggeredFirstC2 f := by
  simp only [staggeredFirstC2, Window.mirror]
  ring

theorem staggeredFirstC4_mirror : staggeredFirstC4 f.mirror = -staggeredFirstC4 f := by
  simp only [staggeredFirstC4, Window.mirror, Exact.ofNat_eq]
  ring

theorem staggeredSecondC2_mirror : staggeredSecondC2 f.mirror = staggeredSecondC2 f := by
  simp only [staggeredSecondC2, Window.mirror]
  congr 1
  ring

end Plain

section Upwind

variable (vc : ℝ) (f : Window ℝ)

/-- It is enough to look at velocities in one direction. For the other one the two windows change places. -/
theorem upwind_mirror {formula : ℝ → Window ℝ → ℝ} (rest : ∀ f, formula 0 f = 0)
    (forward : ∀ vc f, 0 < vc → formula (-vc) f.mirror = formula vc f) : formula (-vc) f.mirror = formula vc f := by
  rcases lt_trichotomy vc 0 with backward | rfl | ahead
  · have other := forward (-vc) f.mirror (neg_pos.mpr backward)
    rw [neg_neg] at other
    exact other.symm
  · rw [neg_zero, rest, rest]
  · exact forward vc f ahead

theorem upwindU1_mirror : upwindU1 (-vc) f.mirror = upwindU1 vc f := by
  refine upwind_mirror vc f (fun f => ?_) fun vc f ahead => ?_
  · simp [upwindU1]
  · simp only [upwindU1, Exact.zero_le_iff, Window.mirror]
    rw [if_neg (by linarith), if_pos ahead.le]
    ring

theorem upwindU2_mirror : upwindU2 (-vc) f.mirror = upwindU2 vc f := by
  refine upwind_mirror vc f (fun f => ?_) fun vc f ahead => ?_
  · simp [upwindU2]
  · simp only [upwindU2, Exact.zero_le_iff, Window.mirror]
    rw [if_neg (by linarith), if_pos ahead.le]
    ring

theorem upwindU3_mirror : upwindU3 (-vc) f.mirror = upwindU3 vc f := by
  refine upwind_mirror vc f (fun f => ?_) fun vc f ahead => ?_
  · simp [upwindU3]
  · simp only [upwindU3, Exact.zero_lt_iff, Window.mirror]
    rw [if_neg (by linarith), if_pos ahead]
    ring

theorem upwindC2_mirror : upwindC2 (-vc) f.mirror = upwindC2 vc f := by
  simp only [upwindC2, Window.mirror]
  ring

theorem upwindC4_mirror : upwindC4 (-vc) f.mirror = upwindC4 vc f := by
  simp only [upwindC4, Window.mirror]
  congr 1
  ring

theorem upwindW3_mirror : upwindW3 (-vc) f.mirror = upwindW3 vc f := by
  refine upwind_mirror vc f (fun f => ?_) fun vc f ahead => ?_
  · simp [upwindW3]
  · have behind : ¬ 0 < -vc := by linarith
    have bend : f.m - 2 * f.c + f.p = f.p - 2 * f.c + f.m := by ring
    have side : f.mm - 2 * f.m + f.c = f.c - 2 * f.m + f.mm := by ring
    simp only [upwindW3, Exact.zero_lt_iff, Window.mirror, behind, ahead, ↓reduceIte, bend, side]
    ring

end Upwind

section Flow

variable (v f : Window ℝ)

/-- What a velocity carries over a face does not depend on the side it is seen from. At rest it carries nothing. -/
theorem carried_turned (v below above : ℝ) : carried (-v) above below = -carried v below above := by
  simp only [carried, Exact.zero_le_iff]
  rcases lt_trichotomy v 0 with backward | rfl | forward
  · rw [if_pos (by linarith), if_neg (by linarith), neg_mul]
  · simp
  · rw [if_neg (by linarith), if_pos (by linarith), neg_mul]

theorem fluxU1_mirror : fluxU1 v.turned f.mirror = fluxU1 v f := by
  have upper : 1 / 2 * (-v.p + -v.c) = -(1 / 2 * (v.c + v.p)) := by ring
  have lower : 1 / 2 * (-v.c + -v.m) = -(1 / 2 * (v.m + v.c)) := by ring
  simp only [fluxU1, Window.turned, Window.mirror, Exact.half_eq]
  rw [upper, lower, carried_turned, carried_turned]
  ring

theorem fluxC2_mirror : fluxC2 v.turned f.mirror = fluxC2 v f := by
  simp only [fluxC2, Window.turned, Window.mirror]
  ring

theorem fluxC4_mirror : fluxC4 v.turned f.mirror = fluxC4 v f := by
  simp only [fluxC4, Window.turned, Window.mirror]
  congr 1
  ring

theorem staggeredUpwindU1_mirror : staggeredUpwindU1 v.turned f.mirror = staggeredUpwindU1 v f := by
  simp only [staggeredUpwindU1, Window.turned, Window.mirror, carried_turned]
  ring

theorem staggeredUpwindC2_mirror : staggeredUpwindC2 v.turned f.mirror = staggeredUpwindC2 v f := by
  simp only [staggeredUpwindC2, Window.turned, Window.mirror]
  ring

theorem staggeredFluxU1_mirror : staggeredFluxU1 v.turned f.mirror = staggeredFluxU1 v f := by
  simp only [staggeredFluxU1, Window.turned, Window.mirror, carried_turned]
  ring

end Flow

end Kernel

/-- All kernels with a formula look the same from both sides, but for the sign of a first derivative. Only the one that
smooths does not. -/
theorem kernels_mirror_symmetric {family : Family} {method : Method} {k : Kernel ℝ}
    (made : Kernel.of? family method = some k) (plain : method ∉ [.s2, .split, .fft]) (v f : Window ℝ) :
    ∃ d, k.apply v f = .ok d ∧ k.apply v.turned f.mirror = .ok (if family.kind = .first then -d else d) := by
  obtain ⟨kind, staggered⟩ := family
  cases kind <;> cases staggered <;> cases method <;> simp [Kernel.of?] at made plain <;> subst made <;>
    refine ⟨_, rfl, congrArg Except.ok ?_⟩
  case first.false.c2 => exact Kernel.firstC2_mirror f
  case first.false.c4 => exact Kernel.firstC4_mirror f
  case first.false.w2 => exact Kernel.firstW2_mirror f
  case first.true.c2 => exact Kernel.staggeredFirstC2_mirror f
  case first.true.c4 => exact Kernel.staggeredFirstC4_mirror f
  case second.false.c2 => exact Kernel.secondC2_mirror f
  case second.false.c4 => exact Kernel.secondC4_mirror f
  case second.true.c2 => exact Kernel.staggeredSecondC2_mirror f
  case fourth.false.c2 => exact Kernel.fourthC2_mirror f
  case upwind.false.u1 => exact Kernel.upwindU1_mirror v.c f
  case upwind.false.u2 => exact Kernel.upwindU2_mirror v.c f
  case upwind.false.u3 => exact Kernel.upwindU3_mirror v.c f
  case upwind.false.c2 => exact Kernel.upwindC2_mirror v.c f
  case upwind.false.c4 => exact Kernel.upwindC4_mirror v.c f
  case upwind.false.w3 => exact Kernel.upwindW3_mirror v.c f
  case upwind.true.u1 => exact Kernel.staggeredUpwindU1_mirror v f
  case upwind.true.c2 => exact Kernel.staggeredUpwindC2_mirror v f
  case flux.false.u1 => exact Kernel.fluxU1_mirror v f
  case flux.false.c2 => exact Kernel.fluxC2_mirror v f
  case flux.false.c4 => exact Kernel.fluxC4_mirror v f
  case flux.true.u1 => exact Kernel.staggeredFluxU1_mirror v f

/-- A velocity that changes its direction within the window, seen from both sides. -/
theorem kernels_mirror_symmetric_converging : ∃ k : Kernel ℝ, Kernel.of? ⟨.flux, true⟩ .u1 = some k ∧
    k.apply ⟨0, 2, 0, -3, 0⟩ ⟨0, 5, 7, 11, 0⟩ = .ok (-43) ∧
    k.apply (Window.turned ⟨0, 2, 0, -3, 0⟩) (Window.mirror ⟨0, 5, 7, 11, 0⟩) = .ok (-43) := by
  have made : Kernel.of? ⟨.flux, true⟩ .u1 =
      some (⟨.u1, ⟨.flux, true⟩, 1, false, .flow Kernel.staggeredFluxU1⟩ : Kernel ℝ) := rfl
  have value : Kernel.staggeredFluxU1 ⟨0, 2, 0, -3, 0⟩ ⟨0, 5, 7, 11, 0⟩ = (-43 : ℝ) := by
    simp only [Kernel.staggeredFluxU1, Kernel.carried, Exact.zero_le_iff]
    norm_num
  obtain ⟨d, here, there⟩ := kernels_mirror_symmetric made (by decide) ⟨0, 2, 0, -3, 0⟩ ⟨0, 5, 7, 11, 0⟩
  obtain rfl : d = -43 := (Except.ok.inj here).symm.trans value
  exact ⟨_, made, here, there⟩

end HaloMesh
