import HaloMesh.Mesh.Derivative
import HaloMesh.Proofs.GridLayout
import HaloMesh.Proofs.StoredFields

/-! A field as the values at its points. What is worked out line by line changes every point that lies on one of
the lines, once, and no other. -/

namespace HaloMesh

variable {α : Type}

namespace Field

def HasPoint (f : Field α) (x y z : Int) : Prop := f.HasColumn x y ∧ 0 ≤ z ∧ z < f.nz

/-- Where the value of a point stands in the storage. -/
def place (f : Field α) (x y z : Int) : Int := z + f.nz * (y + f.ny * x)

variable {f g : Field α} {x y z x' y' z' : Int}

theorem Alike.symm (alike : Alike f g) : Alike g f :=
  ⟨alike.nx.symm, alike.ny.symm, alike.nz.symm, alike.size.symm, alike.loc.symm, alike.aligned.symm⟩

theorem Alike.extents (alike : Alike f g) : g.extents = f.extents := by
  simp only [Field.extents, alike.nx, alike.ny, alike.nz]

theorem Alike.axisSize (alike : Alike f g) {axis : Axis} : g.axisSize axis = f.axisSize axis := by
  cases axis <;> simp only [Field.axisSize, alike.nx, alike.ny, alike.nz]

theorem Alike.retag (alike : Alike f g) (loc : Location) : Alike (f.retag loc) (g.retag loc) :=
  ⟨alike.nx, alike.ny, alike.nz, alike.size, rfl, alike.aligned⟩

theorem Alike.hasPoint (alike : Alike f g) : g.HasPoint x y z ↔ f.HasPoint x y z := by
  simp only [HasPoint, alike.hasColumn, alike.nz]

theorem Alike.place (alike : Alike f g) : g.place x y z = f.place x y z := by
  simp only [Field.place, alike.ny, alike.nz]

theorem place_range (fits : f.Fits) (has : f.HasPoint x y z) : 0 ≤ f.place x y z ∧ f.place x y z < f.data.size := by
  obtain ⟨column, low, high⟩ := has
  obtain ⟨place, -, stop, number⟩ := exists_start fits column
  have here : f.place x y z = z + (f.nz * place : Nat) := by
    rw [Field.place, ← number]
    push_cast
    rfl
  omega

theorem index_eq (fits : f.Fits) (has : f.HasPoint x y z) : f.index x y z = f.place x y z := by
  obtain ⟨low, high⟩ := place_range fits has
  have size := size_of_fits fits
  have limit : ((f.nx * f.ny * f.nz : Nat) : Int) ≤ 35184372088832 := fits
  change Index.wrap (f.place x y z) = f.place x y z
  apply Index.wrap_of_fits <;> rw [Index.wordEnd_eq] <;> omega

theorem point_inj (has : f.HasPoint x y z) (has' : f.HasPoint x' y' z') (same : f.place x' y' z' = f.place x y z) :
    x' = x ∧ y' = y ∧ z' = z := by
  obtain ⟨column, low, high⟩ := has
  obtain ⟨column', low', high'⟩ := has'
  have split (a b : Int) (low : 0 ≤ b) (high : b < f.nz) : (b + f.nz * a) / f.nz = a ∧ (b + f.nz * a) % f.nz = b := by
    rw [Int.add_mul_ediv_left _ _ (by omega), Int.ediv_eq_zero_of_lt low high, Int.add_mul_emod_self_left,
      Int.emod_eq_of_lt low high, Int.zero_add]
    exact ⟨rfl, rfl⟩
  obtain ⟨line, point⟩ := split (y + f.ny * x) z low high
  obtain ⟨line', point'⟩ := split (y' + f.ny * x') z' low' high'
  rw [Field.place, Field.place] at same
  rw [same] at line' point'
  obtain ⟨columns, rows⟩ := place_inj column column' (line'.symm.trans line)
  exact ⟨columns, rows, point'.symm.trans point⟩

/-- Every place in the storage is that of a point. -/
theorem exists_place (fits : f.Fits) {n : Nat} (inside : n < f.data.size) :
    ∃ x y z, f.HasPoint x y z ∧ f.place x y z = n := by
  rw [size_of_fits fits] at inside
  have deep : 0 < f.nz := by
    apply Nat.pos_of_ne_zero
    intro none
    simp [none] at inside
  have line : n / f.nz < f.nx * f.ny := Nat.div_lt_of_lt_mul (by rwa [Nat.mul_comm f.nz])
  have tall : 0 < f.ny := by
    apply Nat.pos_of_ne_zero
    intro none
    simp [none] at line
  have column : n / f.nz / f.ny < f.nx := Nat.div_lt_of_lt_mul (by rwa [Nat.mul_comm f.ny])
  have row := Nat.mod_lt (n / f.nz) tall
  have point := Nat.mod_lt n deep
  refine ⟨(n / f.nz / f.ny : Nat), (n / f.nz % f.ny : Nat), (n % f.nz : Nat),
    ⟨⟨⟨Int.natCast_nonneg _, Int.ofNat_lt.mpr column⟩, Int.natCast_nonneg _, Int.ofNat_lt.mpr row⟩, Int.natCast_nonneg _,
      Int.ofNat_lt.mpr point⟩, ?_⟩
  simp only [place]
  norm_cast
  rw [Nat.mod_add_div, Nat.mod_add_div]

variable [Scalar α]

/-- The value at a point, zero outside the field. -/
def value (f : Field α) (x y z : Int) : α := (f.data[(f.place x y z).toNat]?).getD 0

theorem getElem?_place (fits : f.Fits) (has : f.HasPoint x y z) :
    f.data[(f.place x y z).toNat]? = some (f.value x y z) := by
  obtain ⟨low, high⟩ := place_range fits has
  have inside : (f.place x y z).toNat < f.data.size := by omega
  rw [value, Array.getElem?_eq_getElem inside]
  rfl

theorem elementAt_place (fits : f.Fits) (has : f.HasPoint x y z) :
    elementAt f.data (f.place x y z) = .ok (f.value x y z) := by
  rw [elementAt, if_pos (place_range fits has).1, getElem?_place fits has]

theorem get_eq (fits : f.Fits) (has : f.HasPoint x y z) : f.get x y z = .ok (f.value x y z) := by
  rw [get, index_eq fits has, elementAt_place fits has]

theorem eq_of_values (fits : f.Fits) (alike : Alike f g)
    (same : ∀ x y z, f.HasPoint x y z → g.value x y z = f.value x y z) : g = f := by
  have data : g.data = f.data := by
    apply Array.ext_getElem?
    intro n
    by_cases inside : n < f.data.size
    · obtain ⟨x, y, z, has, place⟩ := exists_place fits inside
      have here := getElem?_place fits has
      have there := getElem?_place (alike.fits fits) (alike.hasPoint.mpr has)
      rw [alike.place, place, Int.toNat_natCast] at there
      rw [place, Int.toNat_natCast] at here
      rw [here, there, same x y z has]
    · rw [Array.getElem?_eq_none (not_lt.mp inside), Array.getElem?_eq_none (alike.size ▸ not_lt.mp inside)]
  obtain ⟨nx, ny, nz, -, loc, aligned⟩ := alike
  cases f
  cases g
  simp only at nx ny nz loc aligned data
  subst nx ny nz loc aligned data
  rfl

/-- A line holds the values of its points in order. -/
theorem getElem?_line (fits : f.Fits) (has : f.HasPoint x y z) : (f.line x y)[z.toNat]? = some (f.value x y z) := by
  obtain ⟨place, start, stop, number⟩ := exists_start fits has.1
  have here : (f.place x y z).toNat = f.nz * place + z.toNat := by
    have low := has.2.1
    have same : f.place x y z = (f.nz * place : Nat) + z := by
      rw [Field.place, ← number]
      push_cast
      ring
    omega
  have inside : z.toNat < f.nz := by have := has.2; omega
  rw [← getElem?_place fits has, here, line_of_start start, Array.getElem?_toList,
    Array.getElem?_extract_of_lt (by omega)]
  exact (Array.getElem?_eq_getElem (by omega)).symm

theorem eq_of_lines (fits : f.Fits) (alike : Alike f g) (same : ∀ x y, f.HasColumn x y → g.line x y = f.line x y) :
    g = f := by
  apply eq_of_values fits alike
  intro x y z has
  have here := getElem?_line fits has
  rw [← same x y has.1, getElem?_line (alike.fits fits) (alike.hasPoint.mpr has)] at here
  exact Option.some.inj here

/-- A field can be given any values at its points. -/
theorem exists_of_values (e : Extents) (positive : 0 ≤ e.nx ∧ 0 ≤ e.ny ∧ 0 ≤ e.nz)
    (room : e.nx * e.ny * e.nz ≤ Index.storageLimit) (loc : Location) (aligned : Bool) (values : Int → Int → Int → α) :
    ∃ f : Field α, f.extents = e ∧ f.loc = loc ∧ f.aligned = aligned ∧
      ∀ x y z, f.HasPoint x y z → f.value x y z = values x y z := by
  obtain ⟨nx, ny, nz⟩ := e
  obtain ⟨nonnegX, nonnegY, nonnegZ⟩ := positive
  obtain ⟨a, rfl⟩ := Int.eq_ofNat_of_zero_le nonnegX
  obtain ⟨b, rfl⟩ := Int.eq_ofNat_of_zero_le nonnegY
  obtain ⟨c, rfl⟩ := Int.eq_ofNat_of_zero_le nonnegZ
  have fits : ((a * b * c : Nat) : Int) ≤ 35184372088832 := by
    push_cast
    exact room
  let data := Array.ofFn fun n : Fin (a * b * c) =>
    values ((n : Nat) / c / b : Nat) ((n : Nat) / c % b : Nat) ((n : Nat) % c : Nat)
  have size : data.size = a * b * c := Array.size_ofFn
  refine ⟨⟨a, b, c, data, loc, aligned, ?_⟩, rfl, rfl, rfl, fun x y z has => ?_⟩
  · rw [size]
    apply (Index.wrap_of_fits _ _).symm <;> rw [Index.wordEnd_eq] <;> omega
  · have inside := (place_range (by exact fits) has).2
    obtain ⟨⟨⟨lowX, -⟩, lowY, highY⟩, lowZ, highZ⟩ := has
    obtain ⟨x, rfl⟩ := Int.eq_ofNat_of_zero_le lowX
    obtain ⟨y, rfl⟩ := Int.eq_ofNat_of_zero_le lowY
    obtain ⟨z, rfl⟩ := Int.eq_ofNat_of_zero_le lowZ
    have row : y < b := Int.ofNat_lt.mp highY
    have point : z < c := Int.ofNat_lt.mp highZ
    simp only [value, place, ← Int.natCast_mul, ← Int.natCast_add, Int.toNat_natCast, Int.ofNat_lt] at inside ⊢
    have onLine : (z + c * (y + b * x)) / c = y + b * x := by
      rw [Nat.add_mul_div_left _ _ (by omega), Nat.div_eq_of_lt point, Nat.zero_add]
    have atPoint : (z + c * (y + b * x)) % c = z := by rw [Nat.add_mul_mod_self_left, Nat.mod_eq_of_lt point]
    have onColumn : (y + b * x) / b = x := by
      rw [Nat.add_mul_div_left _ _ (by omega), Nat.div_eq_of_lt row, Nat.zero_add]
    have onRow : (y + b * x) % b = y := by rw [Nat.add_mul_mod_self_left, Nat.mod_eq_of_lt row]
    rw [Array.getElem?_eq_getElem inside, Option.getD_some, Array.getElem_ofFn]
    simp only [onLine, atPoint, onColumn, onRow]

theorem value_of_data {data : Array α} (taken : f.withData data = .ok g) {v : α}
    (found : data[(f.place x y z).toNat]? = some v) : g.value x y z = v := by
  obtain ⟨rfl, alike⟩ := withData_ok taken
  rw [value, alike.place, found]
  rfl

theorem value_retag (f : Field α) (loc : Location) (x y z : Int) : (f.retag loc).value x y z = f.value x y z := rfl

theorem alike_zeroLike (f : Field α) : Alike f f.zeroLike := ⟨rfl, rfl, rfl, Array.size_map .., rfl, rfl⟩

theorem getElem?_zeroLike (fits : f.Fits) (has : f.HasPoint x y z) :
    f.zeroLike.data[(f.place x y z).toNat]? = some 0 := by
  change (f.data.map fun _ => (0 : α))[(f.place x y z).toNat]? = some 0
  rw [Array.getElem?_map, getElem?_place fits has]
  rfl

theorem value_zeroLike (fits : f.Fits) (has : f.HasPoint x y z) : f.zeroLike.value x y z = 0 := by
  rw [value, show f.zeroLike.place x y z = f.place x y z from rfl, getElem?_zeroLike fits has]
  rfl

theorem combine_alike (fits : f.Fits) (alike : Alike f g) (op : String) (h : α → α → α) :
    ∃ r, f.combine g op h = .ok r ∧ Alike f r ∧
      ∀ x y z, f.HasPoint x y z → r.value x y z = h (f.value x y z) (g.value x y z) := by
  have compatible : f.checkCompatible g op = .ok () := by
    simp [checkCompatible, sameShape, extents, alike.nx, alike.ny, alike.nz, alike.loc, alike.aligned]
  have size : (Array.zipWith h f.data g.data).size = f.data.size := by simp [alike.size]
  obtain ⟨r, taken⟩ := withData_of_size size
  refine ⟨r, Outcome.bind_eq_ok.mpr ⟨(), compatible, taken⟩, (withData_ok taken).2, fun x y z has => ?_⟩
  apply value_of_data taken
  rw [Array.getElem?_zipWith, getElem?_place fits has, ← alike.place,
    getElem?_place (alike.fits fits) (alike.hasPoint.mpr has)]

end Field

/-! Sweeps over lines. -/

section Sweep

variable {f : Field α} {stride : Int} {value : Int → Int → Outcome (Option α)} {new : Int → Int → Int → Option α}

/-- The point `i` of a line from `base` on is a point of the field, and its new value is known. -/
def SweepsPoint (f : Field α) (stride : Int) (value : Int → Int → Outcome (Option α))
    (new : Int → Int → Int → Option α) (point : Int × Int) : Prop :=
  ∃ x y z, f.HasPoint x y z ∧ point.1 + point.2 * stride = f.place x y z ∧ value point.1 point.2 = .ok (new x y z)

private theorem writes_point (fits : f.Fits) {data : Array α} (size : data.size = f.data.size) {point : Int × Int}
    (known : SweepsPoint f stride value new point) : ∃ data', (do
        match ← value point.1 point.2 with
        | some v => Field.writeAt data (point.1 + point.2 * stride) v
        | none => return data) = Except.ok data' ∧ data'.size = f.data.size ∧ ∀ x y z, f.HasPoint x y z →
      data'[(f.place x y z).toNat]? = if point.1 + point.2 * stride = f.place x y z
        then (new x y z).or data[(f.place x y z).toNat]? else data[(f.place x y z).toNat]? := by
  obtain ⟨a, b, c, has, place, computed⟩ := known
  obtain ⟨low, high⟩ := Field.place_range fits has
  rw [computed, place]
  cases found : new a b c with
  | none =>
    refine ⟨data, rfl, size, fun x y z has' => ?_⟩
    split
    next same =>
      obtain ⟨rfl, rfl, rfl⟩ := Field.point_inj has' has same
      rw [found, Option.none_or]
    next => rfl
  | some v =>
    refine ⟨data.setIfInBounds (f.place a b c).toNat v, ?_, by simpa using size, fun x y z has' => ?_⟩
    · change Field.writeAt data (f.place a b c) v = _
      rw [Field.writeAt, if_pos ⟨low, by omega⟩]
    · obtain ⟨low', high'⟩ := Field.place_range fits has'
      rw [Array.getElem?_setIfInBounds]
      by_cases same : f.place a b c = f.place x y z
      · obtain ⟨rfl, rfl, rfl⟩ := Field.point_inj has' has same
        rw [if_pos rfl, if_pos rfl, if_pos (by omega), found, Option.some_or]
      · rw [if_neg (by omega), if_neg same]

private theorem folds_points (fits : f.Fits) (points : List (Int × Int)) (data : Array α)
    (size : data.size = f.data.size) (known : ∀ point ∈ points, SweepsPoint f stride value new point) :
    ∃ data', points.foldlM (fun data ((base, i) : Int × Int) => do
        match ← value base i with
        | some v => Field.writeAt data (base + i * stride) v
        | none => return data) data = Except.ok data' ∧ data'.size = f.data.size ∧ ∀ x y z, f.HasPoint x y z →
      ((∃ point ∈ points, point.1 + point.2 * stride = f.place x y z) →
        data'[(f.place x y z).toNat]? = (new x y z).or data[(f.place x y z).toNat]?) ∧
      ((∀ point ∈ points, point.1 + point.2 * stride ≠ f.place x y z) →
        data'[(f.place x y z).toNat]? = data[(f.place x y z).toNat]?) := by
  induction points generalizing data with
  | nil => exact ⟨data, rfl, size, fun x y z _ => ⟨by simp, fun _ => rfl⟩⟩
  | cons point rest ih =>
    obtain ⟨middle, written, sizeToo, one⟩ := writes_point fits size (known point List.mem_cons_self)
    obtain ⟨data', folded, same, all⟩ := ih middle sizeToo fun other later => known other (List.mem_cons_of_mem _ later)
    refine ⟨data', ?_, same, fun x y z has => ⟨fun covered => ?_, fun uncovered => ?_⟩⟩
    · rw [List.foldlM_cons]
      exact Outcome.bind_eq_ok.mpr ⟨middle, written, folded⟩
    · by_cases later : ∃ other ∈ rest, other.1 + other.2 * stride = f.place x y z
      · rw [(all x y z has).1 later, one x y z has]
        split
        · cases new x y z <;> rfl
        · rfl
      · obtain ⟨other, member, here⟩ := covered
        rcases List.mem_cons.mp member with rfl | among
        · rw [(all x y z has).2 fun other among here => later ⟨other, among, here⟩, one x y z has, if_pos here]
        · exact absurd ⟨other, among, here⟩ later
    · rw [(all x y z has).2 fun other among => uncovered other (List.mem_cons_of_mem _ among), one x y z has,
        if_neg (uncovered point List.mem_cons_self)]

/-- A sweep gives every point on its lines the value that is worked out for it, if there is one, and leaves all
other points alone. -/
theorem sweep_points (fits : f.Fits) {lines : List LineSpan} {data : Array α} (size : data.size = f.data.size)
    (known : ∀ l ∈ lines, ∀ i, l.lo ≤ i → i ≤ l.hi → SweepsPoint f stride value new (l.base, i)) :
    ∃ data', sweep stride lines value data = .ok data' ∧ data'.size = f.data.size ∧ ∀ x y z, f.HasPoint x y z →
      ((∃ l ∈ lines, ∃ i, l.lo ≤ i ∧ i ≤ l.hi ∧ l.base + i * stride = f.place x y z) →
        data'[(f.place x y z).toNat]? = (new x y z).or data[(f.place x y z).toNat]?) ∧
      ((∀ l ∈ lines, ∀ i, l.lo ≤ i → i ≤ l.hi → l.base + i * stride ≠ f.place x y z) →
        data'[(f.place x y z).toNat]? = data[(f.place x y z).toNat]?) := by
  have points (point : Int × Int) : (point ∈ lines.flatMap fun l => (Index.span l.lo l.hi).map fun i => (l.base, i)) ↔
      ∃ l ∈ lines, ∃ i, l.lo ≤ i ∧ i ≤ l.hi ∧ point = (l.base, i) := by
    simp only [List.mem_flatMap, List.mem_map, Index.mem_span]
    constructor
    · intro holds
      obtain ⟨l, member, i, ⟨low, high⟩, rfl⟩ := holds
      exact ⟨l, member, i, low, high, rfl⟩
    · intro holds
      obtain ⟨l, member, i, low, high, rfl⟩ := holds
      exact ⟨l, member, i, ⟨low, high⟩, rfl⟩
  have each (point : Int × Int)
      (member : point ∈ lines.flatMap fun l => (Index.span l.lo l.hi).map fun i => (l.base, i)) :
      SweepsPoint f stride value new point := by
    obtain ⟨l, among, i, low, high, rfl⟩ := (points point).mp member
    exact known l among i low high
  obtain ⟨data', swept, same, all⟩ := folds_points fits _ data size each
  refine ⟨data', swept, same, fun x y z has => ⟨fun covered => ?_, fun uncovered => ?_⟩⟩
  · obtain ⟨l, among, i, low, high, here⟩ := covered
    exact (all x y z has).1 ⟨(l.base, i), (points _).mpr ⟨l, among, i, low, high, rfl⟩, here⟩
  · apply (all x y z has).2
    intro point member
    obtain ⟨l, among, i, low, high, rfl⟩ := (points point).mp member
    exact uncovered l among i low high

end Sweep

end HaloMesh
