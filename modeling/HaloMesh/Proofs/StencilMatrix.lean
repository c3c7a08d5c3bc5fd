import HaloMesh.Difference.Matrix
import HaloMesh.Proofs.FormalOrder

/-! Linear kernels as matrices. Weights that fall onto one column of a row add up, whether they come from different ends of
a short line or from two slots of a staggered window. So a row of the matrix takes from a line what the kernel takes
from the window around its point. -/

namespace HaloMesh

namespace SquareMatrix

/-- A matrix of `n` rows with `n` entries each. -/
structure IsSquare (a : SquareMatrix ℝ) (n : Nat) : Prop where
  size : a.size = n
  height : a.rows.size = n
  width : ∀ (i : Nat) (row : Array ℝ), a.rows[i]? = some row → row.size = n

noncomputable def dot (row line : List ℝ) : ℝ := ((row.zip line).map fun e => e.1 * e.2).sum

/-- What row `i` takes from a line. -/
noncomputable def act (a : SquareMatrix ℝ) (f : Array ℝ) (i : Nat) : ℝ := dot (a.rows[i]?.getD #[]).toList f.toList

theorem dot_modify {row line : List ℝ} {j : Nat} (inside : j < row.length) (same : row.length = line.length) (w : ℝ) :
    dot (row.modify j (· + w)) line = dot row line + w * line.getD j 0 := by
  induction row generalizing line j with
  | nil => simp at inside
  | cons a row ih =>
    cases line with
    | nil => simp at same
    | cons b line =>
      cases j with
      | zero =>
        simp only [dot, List.modify_zero_cons, List.zip_cons_cons, List.map_cons, List.sum_cons, List.getD_cons_zero]
        ring
      | succ j =>
        have later : dot (row.modify j (· + w)) line = dot row line + w * line.getD j 0 :=
          ih (by simpa using inside) (by simpa using same)
        simp only [dot, List.modify_succ_cons, List.zip_cons_cons, List.map_cons, List.sum_cons,
          List.getD_cons_succ] at later ⊢
        rw [later]
        ring

theorem dot_zero (n : Nat) (line : List ℝ) : dot (List.replicate n 0) line = 0 := by
  rw [dot]
  apply List.sum_eq_zero
  intro term member
  obtain ⟨e, among, rfl⟩ := List.mem_map.mp member
  rw [(List.mem_replicate.mp (List.of_mem_zip among).1).2, zero_mul]

variable {a : SquareMatrix ℝ} {n : Nat} {i j : Nat} {f : Array ℝ}

/-- An entry inside a matrix is added to what its row takes from a line, and to nothing else. -/
theorem addAt_ok (square : a.IsSquare n) (row : i < n) (column : j < n) (w : ℝ) :
    ∃ b, a.addAt i j w = .ok b ∧ b.IsSquare n ∧
      ∀ f : Array ℝ, f.size = n → ∀ k < n, b.act f k = a.act f k + if k = i then w * f.getD j 0 else 0 := by
  have inside : 0 ≤ (i : Int) ∧ (i : Int) < a.size ∧ 0 ≤ (j : Int) ∧ (j : Int) < a.size := by
    rw [square.size]
    omega
  have rows (k : Nat) : (a.rows.modify i fun row => row.modify j fun v => v + w)[k]? =
      if i = k then a.rows[k]?.map fun row => row.modify j fun v => v + w else a.rows[k]? := Array.getElem?_modify
  refine ⟨_, if_pos inside, ⟨square.size, by simpa using square.height, fun k line found => ?_⟩, fun f size k within => ?_⟩
  · rw [Int.toNat_natCast, Int.toNat_natCast, rows] at found
    split at found
    · obtain ⟨old, there, rfl⟩ := Option.map_eq_some_iff.mp found
      rw [Array.size_modify]
      exact square.width k old there
    · exact square.width k line found
  · obtain ⟨old, there⟩ : ∃ old, a.rows[k]? = some old :=
      ⟨_, Array.getElem?_eq_getElem (by rw [square.height]; exact within)⟩
    have wide : old.size = n := square.width k old there
    simp only [act, Int.toNat_natCast, rows, there]
    split
    next here =>
      rw [if_pos here.symm]
      simp only [Option.map_some, Option.getD_some, Array.toList_modify]
      rw [dot_modify (by simpa [wide] using column) (by simp [wide, size])]
      simp [Array.getD_eq_getD_getElem?]
    next apart => rw [if_neg (Ne.symm apart), add_zero, Option.getD_some]

/-- Entries that are all inside a matrix can be added one after the other. -/
theorem foldlM_addAt (entries : List (Int × Int × ℝ)) (square : a.IsSquare n)
    (inside : ∀ e ∈ entries, (0 ≤ e.1 ∧ e.1 < n) ∧ 0 ≤ e.2.1 ∧ e.2.1 < n) :
    ∃ b, entries.foldlM (fun (a : SquareMatrix ℝ) (i, j, w) => a.addAt i j w) a = .ok b ∧ b.IsSquare n ∧
      ∀ f : Array ℝ, f.size = n → ∀ k < n, b.act f k = a.act f k +
        (entries.map fun e => if e.1 = (k : Int) then e.2.2 * f.getD e.2.1.toNat 0 else 0).sum := by
  induction entries generalizing a with
  | nil => exact ⟨a, rfl, square, fun f _ k _ => by simp⟩
  | cons e rest ih =>
    obtain ⟨i, j, w⟩ := e
    obtain ⟨⟨lowI, highI⟩, lowJ, highJ⟩ := inside _ List.mem_cons_self
    obtain ⟨i, rfl⟩ := Int.eq_ofNat_of_zero_le lowI
    obtain ⟨j, rfl⟩ := Int.eq_ofNat_of_zero_le lowJ
    obtain ⟨c, added, squareC, acts⟩ := addAt_ok square (Int.ofNat_lt.mp highI) (Int.ofNat_lt.mp highJ) w
    obtain ⟨b, folded, squareB, acts'⟩ := ih squareC fun e later => inside e (List.mem_cons_of_mem _ later)
    refine ⟨b, ?_, squareB, fun f size k within => ?_⟩
    · rw [List.foldlM_cons]
      exact Outcome.bind_eq_ok.mpr ⟨c, added, folded⟩
    · rw [acts' f size k within, acts f size k within, List.map_cons, List.sum_cons, ← add_assoc]
      simp only [Int.toNat_natCast, Nat.cast_inj, eq_comm (a := k)]

theorem zero_square (n : Nat) : (zero n : SquareMatrix ℝ).IsSquare n := by
  refine ⟨rfl, by simp [zero], fun i row found => ?_⟩
  simp only [zero, List.getElem?_toArray, List.getElem?_replicate] at found
  split at found
  · cases found
    simp
  · cases found

theorem zero_act (n : Nat) (f : Array ℝ) (k : Nat) : (zero n : SquareMatrix ℝ).act f k = 0 := by
  simp only [act, zero, List.getElem?_toArray, List.getElem?_replicate]
  split
  · rw [Option.getD_some, Exact.zero_eq]
    exact dot_zero n f.toList
  · rfl

/-- The product holds what each row takes from the line. -/
theorem apply_ok (square : a.IsSquare n) (positive : 0 < n) (size : f.size = n) :
    ∃ r, a.apply f = .ok r ∧ r.size = n ∧ ∀ k < n, r[k]? = some (a.act f k) := by
  refine ⟨_, if_pos ⟨size.trans square.size.symm, square.size ▸ positive⟩, by simpa using square.height,
    fun k within => ?_⟩
  obtain ⟨row, there⟩ : ∃ row, a.rows[k]? = some row :=
    ⟨_, Array.getElem?_eq_getElem (by rw [square.height]; exact within)⟩
  rw [Array.getElem?_map, there, act, there]
  refine congrArg some ?_
  change Array.foldl _ _ _ = _
  rw [← Array.foldl_toList, Array.toList_zip, Exact.zero_eq]
  exact (Exact.foldl_add (fun e : ℝ × ℝ => e.1 * e.2) (row.toList.zip f.toList) 0).trans (zero_add _)

end SquareMatrix

namespace Kernel

section Rows

variable {α : Type} {k : Kernel α} {n : Nat} {periodic : Bool} {i : Int}

/-- The rows of the matrix over `n` points that are not left empty. -/
def rows (k : Kernel α) (n : Nat) (periodic : Bool) : List Int :=
  if periodic then Index.span 0 ((n : Int) - 1) else Index.span k.width ((n : Int) - 1 - k.width)

/-- The column that index `j` of a line falls onto. -/
def column (n : Nat) (periodic : Bool) (j : Int) : Int := if periodic then j % (n : Int) else j

theorem mem_rows : i ∈ k.rows n periodic ↔
    (0 ≤ i ∧ i < n) ∧ (periodic = true ∨ ((k.width : Int) ≤ i ∧ i + k.width < n)) := by
  cases periodic with
  | true =>
    simp only [rows, ↓reduceIte, Index.mem_span, true_or, and_true]
    omega
  | false =>
    simp only [rows, Bool.false_eq_true, ↓reduceIte, Index.mem_span, false_or]
    omega

theorem nodup_rows (k : Kernel α) (n : Nat) (periodic : Bool) : (k.rows n periodic).Nodup := by
  cases periodic
  · exact Block.nodup_span _ _
  · exact Block.nodup_span _ _

theorem matrixEntries_eq [Scalar α] (k : Kernel α) (formula : Window α → α) (n : Nat) (periodic : Bool) :
    k.matrixEntries formula n periodic = (k.rows n periodic).flatMap fun i =>
      (((inputOffsets k.family.staggered).zip (weights formula)).filter fun e => !Scalar.same e.2 0).map fun e =>
        (i, column n periodic (i + e.1), e.2) := by
  cases periodic <;> rfl

theorem column_inside (row : i ∈ k.rows n periodic) {j : Int} (low : i - k.width ≤ j) (high : j ≤ i + k.width) :
    0 ≤ column n periodic j ∧ column n periodic j < n := by
  obtain ⟨inside, apart⟩ := mem_rows.mp row
  cases periodic with
  | true =>
    have some_ : 0 < (n : Int) := by omega
    exact ⟨Int.emod_nonneg j some_.ne', Int.emod_lt_of_pos j some_⟩
  | false =>
    simp only [column, Bool.false_eq_true, ↓reduceIte, false_or] at apart ⊢
    omega

/-- Where the entries of each row are listed together, the sum over one row is the sum over its part of the list. -/
theorem sum_row {rows : List Int} (apart : rows.Nodup) (part : Int → List (Int × Int × ℝ))
    (own : ∀ i, ∀ e ∈ part i, e.1 = i) (value : Int × Int × ℝ → ℝ) (i : Int) :
    ((rows.flatMap part).map fun e => if e.1 = i then value e else 0).sum =
      if i ∈ rows then ((part i).map value).sum else 0 := by
  induction rows with
  | nil => rfl
  | cons r rest ih =>
    obtain ⟨absent, apart⟩ := List.nodup_cons.mp apart
    rw [List.flatMap_cons, List.map_append, List.sum_append, ih apart]
    by_cases same : r = i
    · subst same
      rw [if_neg absent, if_pos List.mem_cons_self, add_zero]
      exact congrArg List.sum (List.map_congr_left fun e member => if_pos (own r e member))
    · have none : ((part r).map fun e => if e.1 = i then value e else 0).sum = 0 := by
        apply List.sum_eq_zero
        intro term member
        obtain ⟨e, among, rfl⟩ := List.mem_map.mp member
        exact if_neg fun at_ => same ((own r e among).symm.trans at_)
      rw [none, zero_add]
      simp only [List.mem_cons, Ne.symm same, false_or]

/-- Weights that are zero can be left out. -/
theorem sum_counted (items : List (Int × ℝ)) (value : Int → ℝ) :
    ((items.filter fun e => !Scalar.same e.2 0).map fun e => e.2 * value e.1).sum =
      (items.map fun e => e.2 * value e.1).sum := by
  induction items with
  | nil => rfl
  | cons e rest ih =>
    by_cases none : e.2 = 0
    · rw [List.filter_cons_of_neg (by simp [Scalar.same, none]), ih, List.map_cons, List.sum_cons, none,
        zero_mul, zero_add]
    · rw [List.filter_cons_of_pos (by simp [Scalar.same, none]), List.map_cons, List.map_cons,
        List.sum_cons, List.sum_cons, ih]

end Rows

variable {family : Family} {method : Method} {k : Kernel ℝ} {formula : Window ℝ → ℝ} {n : Nat} {periodic : Bool}

/-- A kernel takes the sum of its window with these weights, of which the outer ones vanish if it is narrow. -/
structure Weighs (k : Kernel ℝ) (formula : Window ℝ → ℝ) (a b c d e : ℝ) : Prop where
  reaches : 1 ≤ k.width ∧ k.width ≤ 2
  near : k.width = 1 → a = 0 ∧ e = 0
  sum : ∀ w, formula w = a * w.mm + b * w.m + c * w.c + d * w.p + e * w.pp

theorem of?_weighs (made : of? family method = some k) (linear : k.isLinear = true) :
    ∃ formula, k.formula = .derivative formula ∧ ∃ a b c d e, k.Weighs formula a b c d e := by
  obtain ⟨kind, staggered⟩ := family
  cases kind <;> cases staggered <;> cases method <;> simp [of?] at made <;> subst made <;> simp at linear <;>
    refine ⟨_, rfl, ?_⟩
  case first.false.c2 =>
    refine ⟨0, -1 / 2, 0, 1 / 2, 0, by decide, fun _ => ⟨rfl, rfl⟩, fun w => ?_⟩
    simp only [firstC2, Exact.half_eq]
    ring
  case first.false.c4 =>
    refine ⟨1 / 12, -8 / 12, 0, 8 / 12, -1 / 12, by decide, fun wide => absurd wide (by decide), fun w => ?_⟩
    simp only [firstC4, Exact.ofNat_eq]
    push_cast
    ring
  case first.true.c2 =>
    refine ⟨0, -1, 0, 1, 0, by decide, fun _ => ⟨rfl, rfl⟩, fun w => ?_⟩
    simp only [staggeredFirstC2]
    ring
  case first.true.c4 =>
    refine ⟨1 / 24, -27 / 24, 0, 27 / 24, -1 / 24, by decide, fun wide => absurd wide (by decide), fun w => ?_⟩
    simp only [staggeredFirstC4, Exact.ofNat_eq]
    push_cast
    ring
  case second.false.c2 =>
    refine ⟨0, 1, -2, 1, 0, by decide, fun _ => ⟨rfl, rfl⟩, fun w => ?_⟩
    simp only [secondC2, Exact.ofNat_eq]
    push_cast
    ring
  case second.false.c4 =>
    refine ⟨-1 / 12, 16 / 12, -30 / 12, 16 / 12, -1 / 12, by decide, fun wide => absurd wide (by decide), fun w => ?_⟩
    simp only [secondC4, Exact.ofNat_eq]
    push_cast
    ring
  case second.true.c2 =>
    refine ⟨1 / 2, -1 / 2, 0, -1 / 2, 1 / 2, by decide, fun wide => absurd wide (by decide), fun w => ?_⟩
    simp only [staggeredSecondC2, Exact.ofNat_eq]
    push_cast
    ring
  case fourth.false.c2 =>
    refine ⟨1, -4, 6, -4, 1, by decide, fun wide => absurd wide (by decide), fun w => ?_⟩
    simp only [fourthC2, Exact.ofNat_eq]
    push_cast
    ring

variable {a b c d e : ℝ}

/-- Applying a kernel to unit windows finds its weights. -/
theorem Weighs.weights_eq (weighs : k.Weighs formula a b c d e) : weights formula = [a, b, c, d, e] := by
  change [formula (.unit 0), formula (.unit 1), formula (.unit 2), formula (.unit 3), formula (.unit 4)] = _
  simp [weighs.sum, Window.unit, Exact.ofNat_eq]

/-- The offset from input to output of the matrix of a kernel. -/
def matrixOffset (k : Kernel ℝ) : Offset := if k.family.staggered then .toLow else .centred

/-- The weights of a kernel lie within its width. -/
theorem Weighs.inside (weighs : k.Weighs formula a b c d e) {entry : Int × ℝ}
    (member : entry ∈ (inputOffsets k.family.staggered).zip (weights formula)) (counts : entry.2 ≠ 0) :
    -(k.width : Int) ≤ entry.1 ∧ entry.1 ≤ k.width := by
  rw [weighs.weights_eq] at member
  obtain ⟨reaches, near, -⟩ := weighs
  cases staggered : k.family.staggered with
  | false =>
    simp only [inputOffsets, staggered, Bool.false_eq_true, ↓reduceIte, List.zip_cons_cons, List.zip_nil_right,
      List.mem_cons, List.not_mem_nil, or_false] at member
    rcases member with rfl | rfl | rfl | rfl | rfl <;> simp only at counts ⊢ <;> grind
  | true =>
    simp only [inputOffsets, staggered, ↓reduceIte, List.zip_cons_cons, List.zip_nil_right, List.mem_cons,
      List.not_mem_nil, or_false] at member
    rcases member with rfl | rfl | rfl | rfl | rfl <;> simp only at counts ⊢ <;> grind

/-- A kernel gives the sum of the points around its own with its weights. -/
theorem Weighs.formula_on (weighs : k.Weighs formula a b c d e) (line : Int → ℝ) (i : Int) :
    formula (Window.on line i k.matrixOffset 2) =
      (((inputOffsets k.family.staggered).zip (weights formula)).map fun e => e.2 * line (i + e.1)).sum := by
  rw [weighs.sum, weighs.weights_eq, matrixOffset]
  cases k.family.staggered
  · change _ * line (i - 1 - 1) + _ * line (i - 1) + _ * line i + _ * line (i + 1) + _ * line (i + 1 + 1) = _
    simp only [inputOffsets, Bool.false_eq_true, ↓reduceIte, List.zip_cons_cons, List.zip_nil_right, List.map_cons,
      List.map_nil, List.sum_cons, List.sum_nil, Int.sub_sub, Int.add_assoc, Int.add_zero, ← Int.sub_eq_add_neg]
    norm_num
    ring
  · change _ * line (i - 1 - 1) + _ * line (i - 1) + _ * line i + _ * line i + _ * line (i + 1) = _
    simp only [inputOffsets, ↓reduceIte, List.zip_cons_cons, List.zip_nil_right, List.map_cons, List.map_nil,
      List.sum_cons, List.sum_nil, Int.sub_sub, Int.add_zero, ← Int.sub_eq_add_neg]
    norm_num
    ring

theorem Weighs.entries_inside (weighs : k.Weighs formula a b c d e) {entry : Int × Int × ℝ}
    (member : entry ∈ k.matrixEntries formula n periodic) :
    (0 ≤ entry.1 ∧ entry.1 < n) ∧ 0 ≤ entry.2.1 ∧ entry.2.1 < n := by
  rw [matrixEntries_eq] at member
  obtain ⟨i, row, among⟩ := List.mem_flatMap.mp member
  obtain ⟨weight, kept, rfl⟩ := List.mem_map.mp among
  obtain ⟨listed, counts⟩ := List.mem_filter.mp kept
  -- columns out of range belong to weights beyond the width, and those are zero
  have near := weighs.inside listed (by simpa [Scalar.same, Exact.zero_eq] using counts)
  exact ⟨(mem_rows.mp row).1, column_inside row (by omega) (by omega)⟩

/-- The part of the matrix in one row takes from a line what the kernel takes from the window around its point. -/
theorem Weighs.row_sum (weighs : k.Weighs formula a b c d e) (made : of? family method = some k)
    (given : k.formula = .derivative formula) (value : Int → ℝ) (i : Int) :
    ((k.matrixEntries formula n periodic).map fun e => if e.1 = i then e.2.2 * value e.2.1 else 0).sum =
      if i ∈ k.rows n periodic then
        formula (Window.on (fun j => value (column n periodic j)) i k.matrixOffset k.width)
      else 0 := by
  have whole : formula (Window.on (fun j => value (column n periodic j)) i k.matrixOffset k.width) =
      formula (Window.on (fun j => value (column n periodic j)) i k.matrixOffset 2) := by
    have same (line : Int → ℝ) : k.apply ⟨0, 0, 0, 0, 0⟩ (Window.on line i k.matrixOffset k.width) =
        k.apply ⟨0, 0, 0, 0, 0⟩ (Window.on line i k.matrixOffset 2) := apply_field made _
    simpa only [apply, given, Except.ok.injEq] using same fun j => value (column n periodic j)
  rw [matrixEntries_eq]
  rw [sum_row (nodup_rows k n periodic) _ (fun i e member => ?_) (fun e => e.2.2 * value e.2.1)]
  · rw [whole, weighs.formula_on, ← sum_counted _ fun offset => value (column n periodic (i + offset))]
    simp only [List.map_map, Exact.zero_eq]
    rfl
  · obtain ⟨weight, -, rfl⟩ := List.mem_map.mp member
    rfl

/-- The matrix of a linear kernel does to a line what the kernel does to its windows, and other kernels have none. -/
theorem matrix_agrees (made : of? family method = some k) :
    (k.isLinear = false → ∀ (n : Int) (periodic : Bool),
      k.matrix n periodic = Outcome.fail (.notLinear k.method k.family)) ∧
    (k.isLinear = true → ∃ formula, k.formula = .derivative formula ∧ ∀ (n : Nat) (periodic : Bool), 1 ≤ n →
      (∀ e ∈ k.matrixEntries formula n periodic, (0 ≤ e.1 ∧ e.1 < n) ∧ 0 ≤ e.2.1 ∧ e.2.1 < n) ∧
      ∃ a, k.matrix n periodic = .ok a ∧ a.IsSquare n ∧ ∀ f : Array ℝ, f.size = n →
        ∃ r, a.apply f = .ok r ∧ r.size = n ∧ ∀ i : Nat, i < n →
          if periodic = true ∨ k.width ≤ i ∧ i + k.width < n then
            ∃ w, Window.gather (fun j => elementAt f (column n periodic j)) i k.matrixOffset k.width = .ok w ∧
              r[i]? = some (formula w)
          else r[i]? = some 0) := by
  refine ⟨fun bent n periodic => by rw [matrix, bent], fun linear => ?_⟩
  obtain ⟨formula, given, _, _, _, _, _, weighs⟩ := of?_weighs made linear
  refine ⟨formula, given, fun n periodic positive => ⟨fun e member => weighs.entries_inside member, ?_⟩⟩
  obtain ⟨a, folded, square, acts⟩ := SquareMatrix.foldlM_addAt (k.matrixEntries formula n periodic)
    (SquareMatrix.zero_square n) fun e member => weighs.entries_inside member
  refine ⟨a, ?_, square, fun f size => ?_⟩
  · rw [matrix, linear, given]
    exact (if_neg (by omega)).trans folded
  obtain ⟨r, applied, long, values⟩ := SquareMatrix.apply_ok square positive size
  refine ⟨r, applied, long, fun i within => ?_⟩
  have row : (i : Int) ∈ k.rows n periodic ↔ periodic = true ∨ k.width ≤ i ∧ i + k.width < n := by
    rw [mem_rows]
    cases periodic <;> simp <;> omega
  have sum := acts f size i within
  rw [SquareMatrix.zero_act, zero_add, weighs.row_sum made given (fun j => f.getD j.toNat 0) i] at sum
  split
  next evaluated =>
    have reads (j : Int) (low : (i : Int) - k.width ≤ j) (high : j ≤ i + k.width) :
        elementAt f (column n periodic j) = .ok (f.getD (column n periodic j).toNat 0) := by
      obtain ⟨above, below⟩ := column_inside (row.mpr evaluated) low high
      have there : (column n periodic j).toNat < f.size := by omega
      simp only [elementAt, if_pos above, Array.getElem?_eq_getElem there, Array.getD_eq_getD_getElem?,
        Option.getD_some]
    refine ⟨_, Window.gather_ok reads, ?_⟩
    rw [values i within, sum, if_pos (row.mpr evaluated)]
  next apart => rw [values i within, sum, if_neg (mt row.mp apart)]

/-- On three periodic points the outer ends of a staggered window fall onto one column. -/
theorem matrix_agrees_on_three : ∃ k : Kernel ℝ, of? ⟨.second, true⟩ .c2 = some k ∧
    ∃ a r, k.matrix 3 true = .ok a ∧ a.apply #[0, 1, 0] = .ok r ∧ r[(0 : Nat)]? = some 1 := by
  refine ⟨_, rfl, ?_⟩
  have made : of? ⟨.second, true⟩ .c2 =
      some (⟨.c2, ⟨.second, true⟩, 2, true, .derivative staggeredSecondC2⟩ : Kernel ℝ) := rfl
  obtain ⟨formula, given, rest⟩ := (matrix_agrees made).2 rfl
  obtain rfl : staggeredSecondC2 = formula := Formula.derivative.inj given
  obtain ⟨-, a, built, -, acts⟩ := rest 3 true (by decide)
  obtain ⟨r, applied, -, values⟩ := acts #[0, 1, 0] rfl
  obtain ⟨w, gathered, value⟩ := (if_pos (.inl rfl)).mp (values 0 (by decide))
  obtain rfl : (⟨1, 0, 0, 0, 1⟩ : Window ℝ) = w := Except.ok.inj gathered
  refine ⟨a, r, built, applied, value.trans (congrArg some ?_)⟩
  simp only [staggeredSecondC2, Exact.ofNat_eq]
  norm_num

end Kernel
end HaloMesh
