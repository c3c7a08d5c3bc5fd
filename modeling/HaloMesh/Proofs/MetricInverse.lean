import Mathlib.LinearAlgebra.Matrix.NonsingularInverse
import HaloMesh.Proofs.MetricCompatibility

/-! The inverse of a metric. Elimination divides by pivots that are not zero, so that its factors make up the matrix, and
what undoes the factors is the inverse, from either side. -/

namespace HaloMesh

namespace Matrix3

/-- The entries of a matrix by the axes of its rows and columns. -/
def entries (a : Matrix3 ℝ) : Matrix Axis Axis ℝ := fun i k => ((⟨a.r0, a.r1, a.r2⟩ : Triple (Triple ℝ)).get i).get k

theorem mul_entries (a x : Matrix3 ℝ) (i k : Axis) : (a.entries * x.entries) i k =
    a.entries i .x * x.entries .x k + a.entries i .y * x.entries .y k + a.entries i .z * x.entries .z k := by
  rw [Matrix.mul_apply, Axis.sum_eq]

/-- Where the rows of a matrix are exchanged, the columns of its inverse are. -/
theorem mul_of_exchanged {a p x y : Matrix3 ℝ} {σ : Axis → Axis} (twice : Function.Involutive σ)
    (rows : ∀ i l, p.entries i l = a.entries (σ i) l) (columns : ∀ l k, x.entries l k = y.entries l (σ k))
    (inverse : p.entries * y.entries = 1) : a.entries * x.entries = 1 := by
  ext i k
  have entry := congrFun (congrFun inverse (σ i)) (σ k)
  simp only [Matrix.mul_apply, rows, twice i] at entry
  simp only [Matrix.mul_apply, columns, entry, Matrix.one_apply, twice.injective.eq_iff]

/-- A matrix with the first row exchanged for another one. -/
def withFirst (a : Matrix3 ℝ) : Nat → Matrix3 ℝ
  | 0 => a
  | 1 => ⟨a.r1, a.r0, a.r2⟩
  | _ => ⟨a.r2, a.r1, a.r0⟩

/-- The same exchange of columns. -/
def withFirstColumn (x : Matrix3 ℝ) : Nat → Matrix3 ℝ
  | 0 => x
  | 1 => x.columnSwap01
  | _ => x.columnSwap02

theorem mul_withFirstColumn {a y : Matrix3 ℝ} {first : Nat} (inverse : (a.withFirst first).entries * y.entries = 1) :
    a.entries * (y.withFirstColumn first).entries = 1 := by
  rcases first with _ | _ | first
  · exact inverse
  · exact mul_of_exchanged (Equiv.swap_apply_self .x .y) (fun i _ => by cases i <;> rfl)
      (fun l k => by cases l <;> cases k <;> rfl) inverse
  · exact mul_of_exchanged (Equiv.swap_apply_self .x .z) (fun i _ => by cases i <;> rfl)
      (fun l k => by cases l <;> cases k <;> rfl) inverse

theorem mul_columnSwap12 {p y : Matrix3 ℝ} (inverse : (⟨p.r0, p.r2, p.r1⟩ : Matrix3 ℝ).entries * y.entries = 1) :
    p.entries * y.columnSwap12.entries = 1 :=
  mul_of_exchanged (Equiv.swap_apply_self .y .z) (fun i _ => by cases i <;> rfl)
    (fun l k => by cases l <;> cases k <;> rfl) inverse

end Matrix3

/-- The product of both factors. -/
def Factors.product (f : Factors ℝ) : Matrix3 ℝ :=
  ⟨⟨f.u00, f.u01, f.u02⟩, ⟨f.l10 * f.u00, f.l10 * f.u01 + f.u11, f.l10 * f.u02 + f.u12⟩,
    ⟨f.l20 * f.u00, f.l20 * f.u01 + f.l21 * f.u11, f.l20 * f.u02 + f.l21 * f.u12 + f.u22⟩⟩

namespace Matrix3

theorem product_mul_inverse {f : Factors ℝ} (first : f.u00 ≠ 0) (second : f.u11 ≠ 0) (third : f.u22 ≠ 0) :
    f.product.entries * (ofFactorsInverse f).entries = 1 := by
  ext i k
  rw [mul_entries]
  cases i <;> cases k <;>
    simp [entries, Factors.product, ofFactorsInverse, Triple.get, Exact.ofNat_eq] <;> field_simp <;> ring

theorem divideBoth_eq (a b d : ℝ) : divideBoth a b d = (a / d, b / d) := by
  unfold divideBoth
  split
  · rfl
  · rw [Exact.ofNat_eq, Nat.cast_one, mul_one_div, mul_one_div]

theorem ne_zero_of_same {d : ℝ} (apart : ¬ Scalar.same d (@OfNat.ofNat ℝ 0 (Scalar.instOfNatScalar 0)) = true) : d ≠ 0 :=
  fun zero => apart (decide_eq_true (zero.trans Exact.zero_eq.symm))

/-- The factors that elimination finds where the last two rows stand as they are. -/
theorem mul_of_elimination {p : Matrix3 ℝ} {b11 b12 b21 b22 u22 : ℝ} (first : p.r0.x ≠ 0)
    (b11_eq : b11 = p.r1.y - p.r1.x / p.r0.x * p.r0.y) (b12_eq : b12 = p.r1.z - p.r1.x / p.r0.x * p.r0.z)
    (b21_eq : b21 = p.r2.y - p.r2.x / p.r0.x * p.r0.y) (b22_eq : b22 = p.r2.z - p.r2.x / p.r0.x * p.r0.z)
    (second : b11 ≠ 0) (u22_eq : u22 = b22 - b21 / b11 * b12) (third : u22 ≠ 0) :
    p.entries * (ofFactorsInverse ⟨p.r1.x / p.r0.x, p.r2.x / p.r0.x, b21 / b11, p.r0.x, p.r0.y, p.r0.z, b11, b12,
      u22⟩).entries = 1 := by
  have product : Factors.product ⟨p.r1.x / p.r0.x, p.r2.x / p.r0.x, b21 / b11, p.r0.x, p.r0.y, p.r0.z, b11, b12, u22⟩ =
      p := by
    obtain ⟨⟨a, b, c⟩, ⟨d, e, f⟩, ⟨g, h, i⟩⟩ := p
    simp only at first b11_eq b12_eq b21_eq b22_eq
    have column1 : b21 / b11 * b11 = b21 := div_mul_cancel₀ _ second
    simp only [Factors.product, div_mul_cancel₀ _ first, column1, Matrix3.mk.injEq, Triple.mk.injEq, true_and]
    exact ⟨⟨by linarith, by linarith⟩, by linarith, by linarith⟩
  have inverse := product_mul_inverse (f := ⟨p.r1.x / p.r0.x, p.r2.x / p.r0.x, b21 / b11, p.r0.x, p.r0.y, p.r0.z, b11, b12,
    u22⟩) first second third
  rwa [product] at inverse

/-- What elimination gives is the inverse. -/
theorem mul_of_invert? {a : Matrix3 ℝ} {found : Inverted ℝ} (inverted : a.invert? = some found) :
    a.entries * found.inverse.entries = 1 := by
  unfold invert? at inverted
  extract_lets firstTwo best first p at inverted
  have rows : p = a.withFirst first := by
    simp only [p]
    rcases first with _ | _ | _ <;> rfl
  clear_value p first
  simp only [divideBoth_eq] at inverted
  suffices eliminated : ∃ x : Matrix3 ℝ, p.entries * x.entries = 1 ∧ found.inverse = x.withFirstColumn first by
    obtain ⟨x, inverse, same⟩ := eliminated
    rw [same]
    exact mul_withFirstColumn (rows ▸ inverse)
  split at inverted
  · cases inverted
  next pivot =>
    generalize Scalar.lt (Scalar.abs (p.r1.y - _)) (Scalar.abs (p.r2.y - _)) = second at inverted
    -- the last two rows may be exchanged, too
    cases second with
    | false =>
      simp only [Bool.false_eq_true, ↓reduceIte] at inverted
      split at inverted
      · cases inverted
      next pivot' =>
        split at inverted
        · cases inverted
        next pivot'' =>
          refine ⟨_, mul_of_elimination (ne_zero_of_same pivot) rfl rfl rfl rfl (ne_zero_of_same pivot') rfl
            (ne_zero_of_same pivot''), ?_⟩
          cases inverted
          rcases first with _ | _ | _ <;> rfl
    | true =>
      simp only [↓reduceIte] at inverted
      split at inverted
      · cases inverted
      next pivot' =>
        split at inverted
        · cases inverted
        next pivot'' =>
          refine ⟨_, mul_columnSwap12 (mul_of_elimination (ne_zero_of_same pivot) rfl rfl rfl rfl (ne_zero_of_same pivot')
            rfl (ne_zero_of_same pivot'')), ?_⟩
          cases inverted
          rcases first with _ | _ | _ <;> rfl

/-- The inverse of a symmetric matrix is symmetric. -/
theorem upperTriangle_inverse {s : Symmetric ℝ} {x : Matrix3 ℝ} (inverse : s.toMatrix.entries * x.entries = 1) :
    x.upperTriangle.toMatrix.entries = x.entries := by
  have symmetric : s.toMatrix.entries.transpose = s.toMatrix.entries := by
    ext i k
    cases i <;> cases k <;> rfl
  have left : x.entries.transpose * s.toMatrix.entries = 1 := by
    rw [← symmetric, ← Matrix.transpose_mul, inverse, Matrix.transpose_one]
  have same : x.entries.transpose = x.entries := by
    calc x.entries.transpose = x.entries.transpose * (s.toMatrix.entries * x.entries) := by rw [inverse, Matrix.mul_one]
      _ = x.entries := by rw [← Matrix.mul_assoc, left, Matrix.one_mul]
  have mirrored (i k : Axis) : x.entries k i = x.entries i k := congrFun (congrFun same i) k
  ext i k
  cases i <;> cases k
  case y.x => exact mirrored .y .x
  case z.x => exact mirrored .z .x
  case z.y => exact mirrored .z .y
  all_goals rfl

end Matrix3

namespace Symmetric

theorem entries_toMatrix (s : Symmetric ℝ) (i k : Axis) : s.toMatrix.entries i k = s.get (.of i k) := by
  cases i <;> cases k <;> rfl

theorem invertPoint_inverse {x y : Nat} {s t : Symmetric ℝ} {e : ℝ} (inverted : s.invertPoint x y = .ok (t, e)) :
    s.toMatrix.entries * t.toMatrix.entries = 1 := by
  unfold invertPoint at inverted
  dsimp only at inverted
  split at inverted
  · cases inverted
  · cases inverted
  next inverse condition found =>
    split at inverted
    · cases inverted
    · cases inverted
      have product := Matrix3.mul_of_invert? found
      rwa [Matrix3.upperTriangle_inverse product]

end Symmetric

theorem getElem?_columns {nx ny a b : Nat} (column : a < nx) (row : b < ny) :
    ((List.range nx).flatMap fun x => (List.range ny).map fun y => (x, y))[a * ny + b]? = some (a, b) := by
  have parts : ∀ part ∈ (List.range nx).map fun x => (List.range ny).map fun y => (x, y), part.length = ny := by simp
  rw [List.flatMap_def, getElem?_flatten_uniform parts row, List.getElem?_map, List.getElem?_range column]
  simp [List.getElem?_range row]

theorem Field.toNat_place {α : Type} (f : Field α) (a b c : Nat) : (f.place a b c).toNat = f.nz * (b + f.ny * a) + c := by
  have same : f.place a b c = ((f.nz * (b + f.ny * a) + c : Nat) : Int) := by
    rw [place]
    push_cast
    ring
  rw [same, Int.toNat_natCast]

namespace Symmetric

section Generic

variable {α : Type} [Scalar α] {s t : Symmetric (Field α)}

/-- A tensor field that has an inverse has one at every point of the first plane, and takes it all along z. -/
theorem inverse_eq (inverted : s.inverse = .ok t) : ∃ solved : List (Symmetric α × α),
    ((List.range s.c11.nx).flatMap fun x => (List.range s.c11.ny).map fun y => (x, y)).mapM
      (fun c => invertPoint c.1 c.2 (s.pointAt (s.c11.nz * (c.2 + s.c11.ny * c.1)))) = .ok solved ∧
    ∀ p, t.get p = s.c11.tabulate fun n => ((solved[n / s.c11.nz]?).map fun found => found.1.get p).getD 0 := by
  unfold inverse at inverted
  extract_lets shape points at inverted
  generalize points.mapM (m := Except Error) _ = outcome at inverted ⊢
  cases outcome with
  | error e => cases inverted
  | ok solved =>
    simp only [Bind.bind, Except.bind] at inverted
    split at inverted
    · cases inverted
    · cases inverted
      refine ⟨solved, rfl, fun p => ?_⟩
      rw [get_ofFunction]
      simp only [List.getElem?_toArray]
      rfl

theorem inverse_alike (inverted : s.inverse = .ok t) (p : Pair) : Field.Alike s.c11 (t.get p) := by
  obtain ⟨solved, -, tabulated⟩ := inverse_eq inverted
  rw [tabulated]
  exact ⟨rfl, rfl, rfl, Array.size_ofFn, rfl, rfl⟩

end Generic

/-- The inverse of a tensor field has everywhere the inverse of the values in the first plane. -/
theorem inverse_values {s t : Symmetric (Field ℝ)} (inverted : s.inverse = .ok t) (fits : s.c11.Fits)
    (shaped : ∀ p, (s.get p).extents = s.c11.extents) {x y z : Int} (has : s.c11.HasPoint x y z) (i k : Axis) :
    ∑ l, (s.get (.of i l)).value x y 0 * (t.get (.of l k)).value x y z = if i = k then 1 else 0 := by
  obtain ⟨solved, ran, tabulated⟩ := inverse_eq inverted
  obtain ⟨⟨⟨lowX, highX⟩, lowY, highY⟩, lowZ, highZ⟩ := id has
  obtain ⟨a, rfl⟩ := Int.eq_ofNat_of_zero_le lowX
  obtain ⟨b, rfl⟩ := Int.eq_ofNat_of_zero_le lowY
  obtain ⟨c, rfl⟩ := Int.eq_ofNat_of_zero_le lowZ
  have point : c < s.c11.nz := Int.ofNat_lt.mp highZ
  obtain ⟨⟨inverse, e⟩, there, inverted⟩ :=
    mapM_getElem? ran (getElem?_columns (Int.ofNat_lt.mp highX) (Int.ofNat_lt.mp highY))
  have column : (s.c11.nz * (b + s.c11.ny * a) + c) / s.c11.nz = a * s.c11.ny + b := by
    rw [Nat.mul_add_div (by omega), Nat.div_eq_of_lt point]
    ring
  have plane : (s.c11.place a b 0).toNat = s.c11.nz * (b + s.c11.ny * a) := s.c11.toNat_place a b 0
  have product := congrFun (congrFun (invertPoint_inverse inverted) i) k
  rw [Matrix.mul_apply, Matrix.one_apply] at product
  rw [← product]
  refine Finset.sum_congr rfl fun l _ => ?_
  rw [entries_toMatrix, entries_toMatrix, pointAt, get_ofFunction, tabulated, Field.value_tabulate fits has,
    s.c11.toNat_place, column, ← Field.valueAt_place (shaped _), plane, there]
  rfl

end Symmetric

end HaloMesh
