import HaloMesh.Proofs.ExactArithmetic
import HaloMesh.Proofs.GuardAgreement
import HaloMesh.Proofs.LineMeans

/-! Grid variables on the blocks of a grid. A rank reads the global values of its own columns and rows, and goes on beyond
its edge rows as they lead. What it needs for that it has in its own rows, except where there is only one of them. -/

namespace HaloMesh

/-- The value of an array at a column and row. -/
def tableValue {α : Type} [Scalar α] (a : Array (Array α)) (column row : Int) : α :=
  (a.getD column.toNat #[]).getD row.toNat 0

/-- The value that a variable has at a global column and row: a profile has one for each column, an array one for each
point. A name that stands for a scalar is read as one, and a profile comes before an array. -/
inductive GridSource.Tabulates {α : Type} [Scalar α] (s : GridSource α) (name : String) (nx ny : Int) :
    (Int → Int → α) → Prop where
  | profile (p : Array α) (unscaled : ∀ v, s.scalar name ≠ .ok v) (found : s.profile name = .ok p)
      (columns : (p.size : Int) = nx) : s.Tabulates name nx ny fun column _ => p.getD column.toNat 0
  | field (a : Array (Array α)) (unscaled : ∀ v, s.scalar name ≠ .ok v) (unprofiled : ∀ p, s.profile name ≠ .ok p)
      (found : s.field name = .ok a) (columns : (a.size : Int) = nx) (rows : ∀ column ∈ a, (column.size : Int) = ny) :
      s.Tabulates name nx ny (tableValue a)

namespace Field

theorem const_ok {α : Type} (nx ny nz : Int) (positive : 1 ≤ nx ∧ 1 ≤ ny ∧ 1 ≤ nz) (room : nx * ny * nz ≤ Index.storageLimit) (v : α)
    (loc : Location) : ∃ f, Field.const nx ny nz v (.real loc) = .ok f ∧ f.extents = ⟨nx, ny, nz⟩ ∧ f.loc = loc ∧
      f.aligned = false := by
  obtain ⟨a, rfl⟩ := Int.eq_ofNat_of_zero_le (show 0 ≤ nx by omega)
  obtain ⟨b, rfl⟩ := Int.eq_ofNat_of_zero_le (show 0 ≤ ny by omega)
  obtain ⟨c, rfl⟩ := Int.eq_ofNat_of_zero_le (show 0 ≤ nz by omega)
  have limit : ((a * b * c : Nat) : Int) ≤ 35184372088832 := by
    push_cast
    exact room
  have word : Index.wrap ((a : Int).toNat * (b : Int).toNat * (c : Int).toNat : Nat) = (a * b * c : Nat) := by
    simp only [Int.toNat_natCast]
    exact Index.wrap_of_fits (by rw [Index.wordEnd_eq]; omega) (by rw [Index.wordEnd_eq]; omega)
  have sized : ¬ ((a : Int) < 1 ∨ (b : Int) < 1 ∨ (c : Int) < 1) := by omega
  have within : 0 ≤ Index.wrap ((a : Int).toNat * (b : Int).toNat * (c : Int).toNat : Nat) ∧
      Index.wrap ((a : Int).toNat * (b : Int).toNat * (c : Int).toNat : Nat) ≤ Index.storageLimit := by
    rw [word]
    exact ⟨Int.natCast_nonneg _, limit⟩
  rw [Field.const, if_neg sized]
  simp only [Placement.orElse, within, and_self, ↓reduceDIte]
  exact ⟨_, rfl, rfl, rfl, rfl⟩

end Field

namespace Mesh

variable {α : Type}

theorem load_source [Scalar α] {source : GridSource α} {options : Options α} {endpoint : Transport.Endpoint} {m : Mesh α}
    {messages : List String} (loaded : Mesh.load source options endpoint = .ok (m, messages)) : m.source = source := by
  simp only [Mesh.load, Outcome.bind_eq_ok, Outcome.guard_eq_ok, Outcome.returned_eq_ok, pure, Except.pure, Except.ok.injEq,
    Prod.mk.injEq] at loaded
  obtain ⟨⟨g, warnings⟩, -, nxpe, -, columns, -, rows, -, xs, -, ys, -, up, -, down, -, ⟨defaults, more⟩, -, _, -, -, rfl, -⟩ :=
    loaded
  rfl

section Columns

variable [Scalar α] {m : Mesh α} {first second : α} {rest : List α}

theorem length_continuation (count : Nat) (a : α) (b : Option α) : (continuation count a b).length = count := by
  induction count generalizing a b with
  | zero => rfl
  | succ count ih => rw [continuation, List.length_cons, ih]

/-- The rows below an edge, the edge row and the rows above it. -/
theorem extendedColumn_eq {interior : List α} {low high : α} (bottom : interior[0]? = some low)
    (top : interior[interior.length - 1]? = some high) : m.extendedColumn interior =
      (continuation m.shape.myg.toNat low interior[1]?).reverse ++ interior ++ continuation m.shape.myg.toNat high
        (if interior.length < 2 then none else interior[interior.length - 2]?) := by
  simp only [extendedColumn, bottom, top]

variable {interior : List α} {low high : α} (bottom : interior[0]? = some low)
  (top : interior[interior.length - 1]? = some high)
include bottom top

theorem length_extendedColumn : (m.extendedColumn interior).length = interior.length + 2 * m.shape.myg.toNat := by
  rw [extendedColumn_eq bottom top, List.length_append, List.length_append, List.length_reverse, length_continuation,
    length_continuation]
  omega

theorem extendedColumn_interior {j : Nat} (inside : j < interior.length) :
    (m.extendedColumn interior)[m.shape.myg.toNat + j]? = interior[j]? := by
  rw [extendedColumn_eq bottom top, List.append_assoc, List.getElem?_append_right (by simp [length_continuation]),
    List.length_reverse, length_continuation, Nat.add_sub_cancel_left, List.getElem?_append_left inside]

theorem extendedColumn_below {k : Nat} (some_ : 1 ≤ k) (inside : k ≤ m.shape.myg.toNat) :
    (m.extendedColumn interior)[m.shape.myg.toNat - k]? =
      (continuation m.shape.myg.toNat low interior[1]?)[k - 1]? := by
  rw [extendedColumn_eq bottom top, List.append_assoc,
    List.getElem?_append_left (by rw [List.length_reverse, length_continuation]; omega),
    List.getElem?_reverse (by rw [length_continuation]; omega), length_continuation]
  congr 1
  omega

theorem extendedColumn_above {k : Nat} (some_ : 1 ≤ k) :
    (m.extendedColumn interior)[m.shape.myg.toNat + interior.length - 1 + k]? =
      (continuation m.shape.myg.toNat high
        (if interior.length < 2 then none else interior[interior.length - 2]?))[k - 1]? := by
  have nonempty : 0 < interior.length := (List.getElem?_eq_some_iff.mp bottom).1
  have before : ((continuation m.shape.myg.toNat low interior[1]?).reverse ++ interior).length =
      m.shape.myg.toNat + interior.length := by
    rw [List.length_append, List.length_reverse, length_continuation]
  rw [extendedColumn_eq bottom top, List.getElem?_append_right (by rw [before]; omega), before]
  congr 1
  omega

end Columns

variable {m : Mesh α} {name : String} {value : Int → Int → α}

def columnOf (m : Mesh α) (value : Int → Int → α) (x : Int) : List α :=
  (Index.span m.ystart m.yend).map fun y => value (m.globalX x) (m.globalY y)

theorem columnOf_get (value : Int → Int → α) (x : Int) {y : Int} (low : m.ystart ≤ y) (high : y ≤ m.yend) :
    (m.columnOf value x)[(y - m.ystart).toNat]? = some (value (m.globalX x) (m.globalY y)) := by
  have here : m.ystart + ((y - m.ystart).toNat : Int) = y := by omega
  rw [columnOf, List.getElem?_map, Index.span, List.getElem?_map, List.getElem?_range (by omega), Option.map_some,
    Option.map_some, here]

variable [Scalar α]

theorem elementAt_getD {values : Array α} {n : Int} (low : 0 ≤ n) (high : n < values.size) :
    elementAt values n = .ok (values.getD n.toNat 0) := by
  have inside : n.toNat < values.size := by omega
  rw [elementAt, if_pos low, Array.getElem?_eq_getElem inside, Array.getD_eq_getD_getElem?,
    Array.getElem?_eq_getElem inside, Option.getD_some]

/-- A variable of the right size is read wherever the grid has a point. -/
theorem variableValues_ok (tabulated : m.source.Tabulates name m.shape.nx m.shape.ny value) :
    ∃ read, m.variableValues name = .ok read ∧ ∀ column row, 0 ≤ column → column < m.shape.nx → 0 ≤ row →
      row < m.shape.ny → read column row = .ok (value column row) := by
  cases tabulated with
  | profile p unscaled found columns =>
    refine ⟨_, by rw [variableValues, found]; exact if_neg (not_not.mpr columns), fun column row low high _ _ => ?_⟩
    exact elementAt_getD low (columns ▸ high)
  | field a unscaled unprofiled found columns rows =>
    have none_ : a.toList.find? (fun column => (column.size : Int) ≠ m.shape.ny) = none := by
      rw [List.find?_eq_none]
      intro column member
      simpa using rows column (by simpa using member)
    have unread : ∃ e, m.source.profile name = .error e := by
      cases missing : m.source.profile name with
      | ok p => exact absurd missing (unprofiled p)
      | error e => exact ⟨e, rfl⟩
    obtain ⟨e, missing⟩ := unread
    have read : m.variableValues name = .ok fun column row => elementAt a column >>= (elementAt · row) := by
      rw [variableValues, missing, found]
      simp only [columns, ne_eq, not_true_eq_false, ↓reduceIte]
      rw [none_]
    refine ⟨_, read, fun column row low high low' high' => ?_⟩
    have inside : column.toNat < a.size := by omega
    have whole : elementAt a column = .ok a[column.toNat] := by
      rw [elementAt, if_pos low, Array.getElem?_eq_getElem inside]
    have line : a.getD column.toNat #[] = a[column.toNat] := by
      rw [Array.getD_eq_getD_getElem?, Array.getElem?_eq_getElem inside, Option.getD_some]
    rw [tableValue, whole, line]
    exact elementAt_getD low' (rows _ (Array.getElem_mem inside) ▸ high')

theorem hasVariable_of_tabulates (tabulated : m.source.Tabulates name m.shape.nx m.shape.ny value) :
    m.source.hasVariable name = true := by
  have present {β : Type} {shape : VariableShape} {entry : Option β} {b : β}
      (found : GridSource.found shape name entry = .ok b) : entry.isSome = true := by
    cases entry with
    | none => cases found
    | some _ => rfl
  cases tabulated with
  | profile p unscaled found columns => simp [GridSource.hasVariable, present found]
  | field a unscaled unprofiled found columns rows => simp [GridSource.hasVariable, present found]

theorem scalar_of_tabulates (tabulated : m.source.Tabulates name m.shape.nx m.shape.ny value) :
    ∃ e, m.source.scalar name = .error e := by
  cases scalar : m.source.scalar name with
  | error e => exact ⟨e, rfl⟩
  | ok v =>
    cases tabulated with
    | profile p unscaled => exact absurd scalar (unscaled v)
    | field a unscaled => exact absurd scalar (unscaled v)

/-- The values of all columns of a block, one line after another. -/
def lineData (m : Mesh α) (value : Int → Int → α) (depth : Nat) : List α :=
  (((Index.span 0 (m.localNx - 1)).map fun x => m.extendedColumn (m.columnOf value x)).flatten).flatMap fun v =>
    List.replicate depth v

section Lines

variable {rows : Nat} (depth : Nat) (tall : ∀ x, (m.extendedColumn (m.columnOf value x)).length = rows)
include tall

theorem length_lineData : (m.lineData value depth).length = m.localNx.toNat * rows * depth := by
  have columns : ∀ part ∈ (Index.span 0 (m.localNx - 1)).map fun x => m.extendedColumn (m.columnOf value x),
      part.length = rows := List.forall_mem_map.mpr fun x _ => tall x
  rw [lineData, List.flatMap_def, length_flatten_uniform (List.forall_mem_map.mpr fun v _ => List.length_replicate),
    List.length_map, length_flatten_uniform columns, List.length_map, Index.length_span]
  congr 2
  omega

theorem getElem?_lineData {x y z : Nat} (column : x < m.localNx) (row : y < rows) (point : z < depth) :
    (m.lineData value depth)[(x * rows + y) * depth + z]? = (m.extendedColumn (m.columnOf value x))[y]? := by
  have columns : ∀ part ∈ (Index.span 0 (m.localNx - 1)).map fun x => m.extendedColumn (m.columnOf value x),
      part.length = rows := List.forall_mem_map.mpr fun x _ => tall x
  rw [lineData, List.flatMap_def,
    getElem?_flatten_uniform (List.forall_mem_map.mpr fun v _ => List.length_replicate) point, List.getElem?_map,
    getElem?_flatten_uniform columns row, List.getElem?_map, Index.span, List.getElem?_map,
    List.getElem?_range (by omega)]
  simp only [Option.map_some, Option.bind_some, Int.zero_add]
  cases (m.extendedColumn (m.columnOf value x))[y]? with
  | none => rfl
  | some v => exact List.getElem?_replicate.trans (if_pos point)

end Lines

end Mesh

namespace Layout

variable {α : Type} {l : Layout α} {i : Nat} {m : Mesh α}

section Block

variable (words : l.InWords) (given : l.Assigns i m) (value : Int → Int → α)
include words given

theorem length_columnOf (x : Int) : ((m.columnOf value x).length : Int) = l.height i := by
  have top := yend_eq words given
  have start := (start_eq given).2
  have tall := bottom_range given.1
  have guards := l.guards
  rw [Mesh.columnOf, List.length_map, Index.length_span]
  omega

theorem getElem?_columnOf (x : Int) {j : Nat} (inside : (j : Int) < l.height i) :
    (m.columnOf value x)[j]? = some (value (m.globalX x) (l.bottom i + j)) := by
  have top := yend_eq words given
  have start := (start_eq given).2
  have guards := l.guards
  have own : m.ystart ≤ m.ystart + j ∧ m.ystart + j ≤ m.yend := by omega
  have here := m.columnOf_get value x own.1 own.2
  rw [globalY_eq words given own.1 own.2, start] at here
  rw [show l.bottom i + (j : Int) = l.shape.myg + j - l.shape.myg + l.bottom i by omega, ← here]
  congr 1
  omega

omit given in
theorem mx_eq : l.shape.mx = l.shape.nx - 2 * l.shape.mxg := by
  have guards := l.guards
  have width := l.width
  have limit := words.columns
  have inner := l.columns_nonneg
  rw [l.allColumns] at inner
  rw [Index.wrap_of_fits (by rw [Index.wordEnd_eq]; omega) (by omega)] at width
  have least : Index.storageLimit = 35184372088832 := rfl
  refine Index.wrap_of_fits ?_ ?_ <;> rw [Index.wordEnd_eq] <;> omega

theorem globalX_range {x : Int} (low : 0 ≤ x) (high : x < m.localNx) : 0 ≤ m.globalX x ∧ m.globalX x < m.shape.nx := by
  have range := l.left_range i
  have inner := mx_eq words
  rw [globalX_eq words given low high, shape_eq given]
  rw [localNx_eq words given] at high
  omega

theorem interior_row_range {y : Int} (low : m.ystart ≤ y) (high : y ≤ m.yend) :
    0 ≤ m.globalY y ∧ m.globalY y < m.shape.ny := by
  have tall := bottom_range given.1
  have top := yend_eq words given
  have start := (start_eq given).2
  rw [globalY_eq words given low high, shape_eq given]
  omega

theorem columnOf_ends (x : Int) : (m.columnOf value x)[0]? = some (value (m.globalX x) (l.bottom i)) ∧
    (m.columnOf value x)[(m.columnOf value x).length - 1]? =
      some (value (m.globalX x) (l.bottom i + l.height i - 1)) := by
  have tall := bottom_range given.1
  have length := length_columnOf words given value x
  have first := getElem?_columnOf words given value x (j := 0) (by omega)
  have last := getElem?_columnOf words given value x (j := (m.columnOf value x).length - 1) (by omega)
  rw [Int.natCast_zero, Int.add_zero] at first
  rw [show l.bottom i + (((m.columnOf value x).length - 1 : Nat) : Int) = l.bottom i + l.height i - 1 by omega] at last
  exact ⟨first, last⟩

theorem length_column [Scalar α] (x : Int) : (m.extendedColumn (m.columnOf value x)).length = m.localNy.toNat := by
  obtain ⟨bottom, top⟩ := columnOf_ends words given value x
  have length := length_columnOf words given value x
  have tall := bottom_range given.1
  have guards := l.guards
  rw [Mesh.length_extendedColumn bottom top, localNy_eq words given, shape_eq given]
  omega

theorem read_columns [Scalar α] {read : Int → Int → Outcome α}
    (known : ∀ column row, 0 ≤ column → column < m.shape.nx → 0 ≤ row → row < m.shape.ny →
      read column row = .ok (value column row)) :
    ((Index.span 0 (m.localNx - 1)).mapM fun x => do
      let interior ← (Index.span m.ystart m.yend).mapM fun y => read (m.globalX x) (m.globalY y)
      return m.extendedColumn interior) =
      .ok ((Index.span 0 (m.localNx - 1)).map fun x => m.extendedColumn (m.columnOf value x)) := by
  refine mapM_ok fun x member => ?_
  obtain ⟨low, high⟩ := Index.mem_span.mp member
  have across := globalX_range words given low (by omega)
  have interior : ((Index.span m.ystart m.yend).mapM fun y => read (m.globalX x) (m.globalY y)) =
      .ok (m.columnOf value x) := by
    refine mapM_ok fun y inside => ?_
    have own := Index.mem_span.mp inside
    have along := interior_row_range words given own.1 own.2
    exact known _ _ across.1 across.2 along.1 along.2
  rw [interior]
  rfl

theorem lineData_place [Scalar α] {f : Field α} (sizes : (f.nx : Int) = m.localNx ∧ (f.ny : Int) = m.localNy) {x y z : Int}
    (has : f.HasPoint x y z) : (m.lineData value f.nz)[(f.place x y z).toNat]? =
      (m.extendedColumn (m.columnOf value x))[y.toNat]? := by
  obtain ⟨⟨⟨lowX, highX⟩, lowY, highY⟩, lowZ, highZ⟩ := has
  obtain ⟨x, rfl⟩ := Int.eq_ofNat_of_zero_le lowX
  obtain ⟨y, rfl⟩ := Int.eq_ofNat_of_zero_le lowY
  obtain ⟨z, rfl⟩ := Int.eq_ofNat_of_zero_le lowZ
  have rows : m.localNy.toNat = f.ny := by omega
  have place : (f.place x y z).toNat = (x * m.localNy.toNat + y) * f.nz + z := by
    rw [rows, Field.place]
    have whole : ((x * f.ny + y) * f.nz + z : Nat) = (z : Int) + f.nz * (y + f.ny * x) := by
      push_cast
      ring
    omega
  rw [place]
  exact Mesh.getElem?_lineData f.nz (fun x => length_column words given value x) (by omega) (by omega)
    (by exact_mod_cast highZ)

end Block

variable [Scalar α] {name : String}

omit [Scalar α] in
/-- There is a field of one value over a block. -/
theorem exists_const (given : l.Assigns i m) (room : m.HasRoom) (v : α) :
    ∃ f, Field.const m.localNx m.localNy m.localNz v (.real .centre) = .ok f ∧ f.extents = m.extents ∧ f.loc = .centre ∧
      f.aligned = false := by
  have words := inWords_of_room given room
  have tall := bottom_range given.1
  have wide := l.left_range i
  have guards := l.guards
  have deep := l.depth
  have width := localNx_eq words given
  have height := localNy_eq words given
  have depth := localNz_eq given
  exact Field.const_ok m.localNx m.localNy m.localNz (by omega)
    (by rw [width, height, depth]; exact (hasRoom_iff given).mp room) v .centre

/-- Reading a variable gives every column its rows of the grid, continued into the guard cells. -/
theorem getField_values (given : l.Assigns i m) (room : m.HasRoom)
    (tabulated : m.source.Tabulates name m.shape.nx m.shape.ny value) (dflt : α) :
    ∃ f, m.getField name dflt = .ok (f, none) ∧ f.extents = m.extents ∧ f.loc = .centre ∧ f.aligned = false ∧
      ∀ x y z, f.HasPoint x y z → (m.extendedColumn (m.columnOf value x))[y.toNat]? = some (f.value x y z) := by
  have words := inWords_of_room given room
  have tall := bottom_range given.1
  have wide := l.left_range i
  have guards := l.guards
  have width := localNx_eq words given
  have height := localNy_eq words given
  have depth := localNz_eq given
  obtain ⟨f, made, shaped, loc, aligned⟩ := exists_const given room dflt
  have fits : f.Fits := (ofShape_of_room given room shaped).2
  obtain ⟨nx, ny, nz⟩ := sizes_eq given room shaped
  have column (x : Int) := length_column words given value x
  have size : (m.lineData value f.nz).toArray.size = f.data.size := by
    rw [List.size_toArray, Mesh.length_lineData f.nz column, Field.size_of_fits fits]
    congr 2 <;> omega
  obtain ⟨g, taken⟩ := Field.withData_of_size size
  obtain ⟨read, values, known⟩ := Mesh.variableValues_ok tabulated
  obtain ⟨e, unscaled⟩ := Mesh.scalar_of_tabulates tabulated
  refine ⟨g, ?_, ?_⟩
  · refine Outcome.bind_eq_ok.mpr ⟨f, made, ?_⟩
    simp only [Mesh.hasVariable_of_tabulates tabulated, unscaled, values]
    rw [if_neg (by decide)]
    exact Outcome.bind_eq_ok.mpr ⟨(), if_pos fits, Outcome.bind_eq_ok.mpr ⟨_, read_columns words given value known,
      Outcome.bind_eq_ok.mpr ⟨g, taken, rfl⟩⟩⟩
  · have alike := (Field.withData_ok taken).2
    refine ⟨alike.extents.trans shaped, alike.loc.trans loc, alike.aligned.trans aligned, fun x y z has => ?_⟩
    have there := alike.hasPoint.mp has
    have row : y.toNat < (m.extendedColumn (m.columnOf value x)).length := by
      obtain ⟨⟨-, lowY, highY⟩, -⟩ := there
      rw [column]
      omega
    have here := lineData_place words given value ⟨nx.trans width.symm, ny.trans height.symm⟩ there
    rw [List.getElem?_eq_getElem row] at here
    rw [List.getElem?_eq_getElem row, Field.value_of_data taken (v := _) ((List.getElem?_toArray ..).trans here)]

end Layout

/-! Exact continuation. -/

/-- Beyond an edge the values go on in a line, and stay as they are where there is no second row. -/
theorem Mesh.getElem?_continuation (n : Nat) (a : ℝ) (b : Option ℝ) {k : Nat} (inside : k < n) :
    (Mesh.continuation n a b)[k]? = some (a + (k + 1) * (b.map (a - ·)).getD 0) := by
  induction n generalizing a b k with
  | zero => exact absurd inside (Nat.not_lt_zero k)
  | succ n ih =>
    have first : Mesh.continued a b = a + (b.map (a - ·)).getD 0 := by
      cases b with
      | none => simp [Mesh.continued]
      | some b =>
        simp only [Mesh.continued, Option.map_some, Option.getD_some]
        ring
    cases k with
    | zero =>
      rw [Mesh.continuation, List.getElem?_cons_zero, first]
      simp
    | succ k =>
      rw [Mesh.continuation, List.getElem?_cons_succ, ih _ _ (by omega), first]
      simp only [Option.map_some, Option.getD_some, add_sub_cancel_left]
      congr 1
      push_cast
      ring

theorem Mesh.continuation_at {n k : Int} (first : 1 ≤ k) (last : k ≤ n) (a : ℝ) (b : Option ℝ) :
    (Mesh.continuation n.toNat a b)[k.toNat - 1]? = some (a + k * (b.map (a - ·)).getD 0) := by
  have steps : ((k.toNat - 1 : Nat) : ℝ) + 1 = k := by
    have whole : ((k.toNat - 1 : Nat) : Int) + 1 = k := by omega
    exact_mod_cast congrArg (Int.cast : Int → ℝ) whole
  rw [Mesh.getElem?_continuation _ _ _ (by omega), steps]

/-- The value `k` rows beyond an edge row of value `a`, where the next row inside has the value `b`. A block of one row
does not know the next one. -/
noncomputable def Mesh.beyond (m : Mesh ℝ) (a b : ℝ) (k : Int) : ℝ := if m.ystart < m.yend then a + k * (a - b) else a

namespace Layout

section Ends

variable {α : Type} {l : Layout α} {i : Nat} {m : Mesh α} (words : l.InWords) (given : l.Assigns i m)
  (opened : m.shape.topology = .rectangular m.shape.ny false) {x : Int} (low : 0 ≤ x) (high : x < m.localNx)
include words given opened low high

/-- In a grid with two ends in y, the blocks at the first and at the last row have the boundaries. -/
theorem ends_open : (m.isFirstYAt x = true ↔ m.globalY m.ystart = 0) ∧
    (m.isLastYAt x = true ↔ m.globalY m.yend = m.shape.ny - 1) := by
  have first : m.endsAt false x = true ↔ _ := endsAt_step words given low high
  have last : m.endsAt true x = true ↔ _ := endsAt_step words given low high
  have positive := l.proper.1
  have tall := bottom_range given.1
  have top := yend_eq words given
  have start := (start_eq given).2
  have before : Index.previous l.shape.ny = l.shape.ny - 1 :=
    Index.previous_of_lt (by rw [Index.least, Index.wordEnd_eq]; omega)
  have low' := interior_row_range words given (y := m.ystart) (by omega) (by omega)
  have high' := interior_row_range words given (y := m.yend) (by omega) (by omega)
  rw [shape_eq given] at opened low' high'
  rw [opened] at first last
  simp only [Mesh.endsAt, Mesh.edgeRow, Topology.step, Topology.up, Topology.down, before, Bool.false_eq_true, ↓reduceIte]
    at first last
  rw [first, last, shape_eq given]
  constructor <;> split <;> simp <;> omega

end Ends

section Beyond

variable {l : Layout ℝ} {i : Nat} {m : Mesh ℝ} {value : Int → Int → ℝ} (words : l.InWords) (given : l.Assigns i m)
  {x k : Int} (first : 1 ≤ k) (last : k ≤ m.shape.myg)
include words given first last

theorem column_below (bottom : m.globalY m.ystart = 0) :
    (m.extendedColumn (m.columnOf value x))[(m.ystart - k).toNat]? =
      some (m.beyond (value (m.globalX x) 0) (value (m.globalX x) 1) k) := by
  have tall := bottom_range given.1
  have top := yend_eq words given
  have start := (start_eq given).2
  rw [globalY_eq words given (Int.le_refl _) (by omega), start] at bottom
  have here : (m.columnOf value x)[1]? =
      if m.ystart < m.yend then some (value (m.globalX x) 1) else none := by
    have length := length_columnOf words given value x
    split
    · rw [getElem?_columnOf words given value x (by push_cast; omega)]
      congr 2
      push_cast
      omega
    · exact List.getElem?_eq_none (by omega)
  obtain ⟨edge, other⟩ := columnOf_ends words given value x
  rw [show l.bottom i = 0 by omega] at edge
  rw [show (m.ystart - k).toNat = m.shape.myg.toNat - k.toNat by rw [shape_eq given] at last ⊢; omega,
    Mesh.extendedColumn_below edge other (by omega) (by omega), Mesh.continuation_at first last, here]
  rw [Mesh.beyond]
  split <;> simp

theorem column_above (top : m.globalY m.yend = m.shape.ny - 1) :
    (m.extendedColumn (m.columnOf value x))[(m.yend + k).toNat]? =
      some (m.beyond (value (m.globalX x) (m.shape.ny - 1)) (value (m.globalX x) (m.shape.ny - 2)) k) := by
  have tall := bottom_range given.1
  have upper := yend_eq words given
  have start := (start_eq given).2
  have length := length_columnOf words given value x
  rw [globalY_eq words given (by omega) (Int.le_refl _), shape_eq given] at top
  have here : (if (m.columnOf value x).length < 2 then none else
      (m.columnOf value x)[(m.columnOf value x).length - 2]?) =
      if m.ystart < m.yend then some (value (m.globalX x) (m.shape.ny - 2)) else none := by
    by_cases single : (m.columnOf value x).length < 2
    · rw [if_pos single, if_neg (by omega)]
    · rw [if_neg single, if_pos (by omega), getElem?_columnOf words given value x (by omega), shape_eq given]
      congr 2
      omega
  obtain ⟨other, edge⟩ := columnOf_ends words given value x
  rw [show l.bottom i + l.height i - 1 = m.shape.ny - 1 by rw [shape_eq given]; omega] at edge
  rw [show (m.yend + k).toNat = m.shape.myg.toNat + (m.columnOf value x).length - 1 + k.toNat by
      rw [shape_eq given] at last ⊢; omega,
    Mesh.extendedColumn_above other edge (by omega), Mesh.continuation_at first last, here]
  rw [Mesh.beyond]
  split <;> simp

end Beyond
end Layout

/-- Grid variables do not depend on the split. In a grid with two ends in y every block reads the values of its own columns
and rows, all of them points of the grid. Beyond the ends it goes on in a line through the last two rows of the grid, if it
has both of them. A block of a single row, which can only be where there is one guard row, repeats that row. -/
theorem grid_variables_continue (source : GridSource ℝ) (options : Options ℝ) {i count : Nat} (inside : i < count)
    {m : Mesh ℝ} {messages : List String} (loaded : Mesh.load source options ⟨i, count⟩ = .ok (m, messages))
    (room : m.HasRoom) (opened : m.shape.topology = .rectangular m.shape.ny false) {name : String} {value : Int → Int → ℝ}
    (tabulated : source.Tabulates name m.shape.nx m.shape.ny value) (dflt : ℝ) :
    (∀ x, 0 ≤ x → x < m.localNx → 0 ≤ m.globalX x ∧ m.globalX x < m.shape.nx) ∧
    (∀ y, m.ystart ≤ y → y ≤ m.yend → 0 ≤ m.globalY y ∧ m.globalY y < m.shape.ny) ∧
    (m.ystart = m.yend → m.shape.myg = 1) ∧
    ∃ f, m.getField name dflt = .ok (f, none) ∧ f.extents = m.extents ∧ ∀ x z, 0 ≤ x → x < m.localNx → 0 ≤ z →
      z < m.localNz →
        (m.isFirstYAt x = true ↔ m.globalY m.ystart = 0) ∧ (m.isLastYAt x = true ↔ m.globalY m.yend = m.shape.ny - 1) ∧
        (∀ y, m.ystart ≤ y → y ≤ m.yend → f.value x y z = value (m.globalX x) (m.globalY y)) ∧
        ∀ k, 1 ≤ k → k ≤ m.shape.myg →
          (m.isFirstYAt x = true →
            f.value x (m.ystart - k) z = m.beyond (value (m.globalX x) 0) (value (m.globalX x) 1) k) ∧
          (m.isLastYAt x = true → f.value x (m.yend + k) z =
            m.beyond (value (m.globalX x) (m.shape.ny - 1)) (value (m.globalX x) (m.shape.ny - 2)) k) := by
  obtain ⟨l, rfl, assigned⟩ := Layout.of_load loaded
  have given := assigned i inside _ _ loaded
  have words := Layout.inWords_of_room given room
  have guarded := (Mesh.load_guards loaded).2
  have tall := Layout.bottom_range given.1
  have top := Layout.yend_eq words given
  have start := (Layout.start_eq given).2
  have height := Layout.localNy_eq words given
  have guards := l.guards
  have shape := Layout.shape_eq given
  obtain ⟨f, read, shaped, -, -, values⟩ :=
    Layout.getField_values given room ((Mesh.load_source loaded).symm ▸ tabulated) dflt
  obtain ⟨nx, ny, nz⟩ := Layout.sizes_eq given room shaped
  have width := Layout.localNx_eq words given
  have depth := Layout.localNz_eq given
  refine ⟨fun x low high => Layout.globalX_range words given low high,
    fun y low high => Layout.interior_row_range words given low high, fun single => ?_, f, read, shaped,
    fun x z low high first last => ?_⟩
  · rw [shape] at guarded ⊢
    omega
  have has {y : Int} (above : 0 ≤ y) (below : y < m.localNy) : f.HasPoint x y z :=
    ⟨⟨⟨low, by omega⟩, above, by omega⟩, first, by omega⟩
  obtain ⟨lower, upper⟩ := Layout.ends_open words given opened low high
  refine ⟨lower, upper, fun y above below => ?_, fun k some_ few => ⟨fun ends => ?_, fun ends => ?_⟩⟩
  · have here := values x y z (has (by omega) (by omega))
    obtain ⟨edge, other⟩ := Layout.columnOf_ends words given value x
    have length := Layout.length_columnOf words given value x
    rw [show y.toNat = m.shape.myg.toNat + (y - m.ystart).toNat by rw [shape]; omega,
      Mesh.extendedColumn_interior edge other (by omega), m.columnOf_get value x above below] at here
    exact (Option.some.inj here).symm
  · have here := values x (m.ystart - k) z (has (by rw [shape] at few; omega) (by omega))
    rw [Layout.column_below words given some_ few (lower.mp ends)] at here
    exact (Option.some.inj here).symm
  · have here := values x (m.yend + k) z (has (by omega) (by rw [shape] at few; omega))
    rw [Layout.column_above words given some_ few (upper.mp ends)] at here
    exact (Option.some.inj here).symm

/-! A variable over a grid of four rows with two ends in y. Two ranks have two of the rows each, of four ranks each has
one. -/

noncomputable def stripValues : Array (Array ℝ) := Array.replicate 3 #[0, 1, 4, 9]

noncomputable def stripSource : GridSource ℝ := ⟨[], [], [("v", stripValues)]⟩

noncomputable def stripOptions : Options ℝ :=
  ⟨[("nx", .whole 3), ("ny", .whole 4), ("mxg", .whole 1), ("myg", .whole 1), ("nxpe", .whole 1),
    ("periodicy", .flag false)]⟩

noncomputable def stripShape : GridShape ℝ :=
  { nx := 3, ny := 4, nz := 1, mxg := 1, myg := 1, zMin := Scalar.ofInt 0, zMax := Scalar.ofInt 1
    topology := .rectangular 4 false, shiftAngle := none, twistShift := false, periodicX := false, staggerGrids := false
    shiftXderivs := false, incIntShear := false }

theorem asked_strip : GridShape.Asked stripOptions stripShape where
  sizes := by decide +kernel
  guards := by decide +kernel
  room := by decide +kernel
  range := ⟨Options.real_unset (by decide +kernel) _, Options.real_unset (by decide +kernel) _⟩
  extent := Exact.default_range
  separatrix := by decide +kernel
  legs := by decide +kernel
  topology := by decide +kernel
  flags := by decide +kernel
  straight := ⟨rfl, rfl⟩

theorem read_strip : GridShape.read stripSource stripOptions = .ok (stripShape, []) :=
  asked_strip.read (by decide +kernel)

theorem load_strip {count i : Nat} (ranks : count = 2 ∨ count = 4) (inside : i < count) :
    ∃ m, Mesh.load stripSource stripOptions ⟨i, count⟩ = .ok (m, []) ∧ m.HasRoom ∧ m.shape = stripShape ∧
      m.globalX 1 = 1 ∧ m.globalY 1 = i * (4 / count) ∧ m.localNx = 3 ∧ m.localNz = 1 ∧ m.ystart = 1 ∧ m.yend = 4 / count := by
  have plain : stripOptions.Plain := by
    intro entry member inner same
    simp only [stripOptions, List.mem_cons, List.not_mem_nil, or_false] at member
    rcases member with rfl | rfl | rfl | rfl | rfl | rfl <;> cases same
  have asked : stripOptions.isSet "NXPE" = true ∧ stripOptions.whole "NXPE" 0 = 1 ∧
      stripOptions.isSet "paralleltransform" = false := by decide +kernel
  have settled : stripShape.settleSplit stripOptions count = .ok 1 := by
    simp only [GridShape.settleSplit, asked.1, asked.2.1]
    rcases ranks with rfl | rfl <;> rfl
  have transform := transformName_unset asked.2.2
  rcases ranks with rfl | rfl
  all_goals
    interval_cases i
    all_goals
      refine ⟨_, Mesh.load_of_steps read_strip settled rfl rfl rfl rfl rfl rfl (Defaults.read_plain plain) rfl transform,
        ?_, rfl, rfl, rfl, rfl, rfl, rfl, rfl⟩
      · decide

theorem tabulates_strip :
    stripSource.Tabulates "v" 3 4 (tableValue stripValues) := by
  refine .field stripValues (fun v found => ?_) (fun p found => ?_) ?_ ?_ ?_
  · simp [GridSource.scalar, GridSource.found, stripSource, Named.find?] at found
  · simp [GridSource.profile, GridSource.found, stripSource, Named.find?] at found
  · simp [GridSource.field, GridSource.found, stripSource, Named.find?]
  · simp [stripValues]
  · simp [stripValues]

theorem stripValues_edge : tableValue stripValues 1 0 = 0 ∧ tableValue stripValues 1 1 = 1 := by
  simp [tableValue, stripValues]

theorem grid_variables_continue_strip : ∃ m f, Mesh.load stripSource stripOptions ⟨0, 2⟩ = .ok (m, []) ∧
    m.getField "v" 0 = .ok (f, none) ∧ f.value 1 (m.ystart - 1) 0 = -1 := by
  obtain ⟨m, loaded, room, shape, column, row, width, depth, start, top⟩ := load_strip (.inl rfl) (by decide : 0 < 2)
  obtain ⟨-, -, -, f, read, -, values⟩ := grid_variables_continue stripSource stripOptions (by decide) loaded room
    (by rw [shape]; rfl) (by rw [shape]; exact tabulates_strip) 0
  obtain ⟨lower, -, -, guard⟩ := values 1 0 (by decide) (by omega) (by decide) (by omega)
  have below := (guard 1 (by decide) (by rw [shape]; decide)).1 (lower.mpr (by rw [start, row]; decide))
  refine ⟨m, f, loaded, read, below.trans ?_⟩
  rw [Mesh.beyond, if_pos (by omega), column, stripValues_edge.1, stripValues_edge.2]
  norm_num

/-- Cut into single rows, the same variable is not continued in a line. Beyond the value 0 of the first row, with the value
1 in the second, stands 0. -/
theorem strip_repeats : ∃ m f, Mesh.load stripSource stripOptions ⟨0, 4⟩ = .ok (m, []) ∧
    m.shape.topology = .rectangular m.shape.ny false ∧ 2 ≤ m.shape.ny ∧
    stripSource.Tabulates "v" m.shape.nx m.shape.ny (tableValue stripValues) ∧ m.isFirstYAt 1 = true ∧
    m.getField "v" 0 = .ok (f, none) ∧ f.value 1 (m.ystart - 1) 0 ≠ tableValue stripValues (m.globalX 1) 0 +
      1 * (tableValue stripValues (m.globalX 1) 0 - tableValue stripValues (m.globalX 1) 1) := by
  obtain ⟨m, loaded, room, shape, column, row, width, depth, start, top⟩ := load_strip (.inr rfl) (by decide : 0 < 4)
  obtain ⟨l, -, assigned⟩ := Layout.of_load loaded
  have given := assigned 0 (by decide) _ _ loaded
  have words := Layout.inWords_of_room given room
  have opened : m.shape.topology = .rectangular m.shape.ny false := by rw [shape]; rfl
  have tabulated : stripSource.Tabulates "v" m.shape.nx m.shape.ny (tableValue stripValues) := by
    rw [shape]
    exact tabulates_strip
  have bottom : m.globalY m.ystart = 0 := by rw [start, row]; decide
  obtain ⟨f, read, shaped, -, -, values⟩ :=
    Layout.getField_values given room ((Mesh.load_source loaded).symm ▸ tabulated) 0
  obtain ⟨nx, ny, nz⟩ := Layout.sizes_eq given room shaped
  have broad := Layout.localNx_eq words given
  have deep := Layout.localNz_eq given
  have height := Layout.bottom_range given.1
  have guards := l.guards
  have has : f.HasPoint 1 (m.ystart - 1) 0 := ⟨⟨⟨by decide, by omega⟩, by omega, by omega⟩, by decide, by omega⟩
  have here := values 1 (m.ystart - 1) 0 has
  rw [Layout.column_below words given (Int.le_refl 1) (by rw [shape]; decide) bottom, Mesh.beyond,
    if_neg (by omega), column, stripValues_edge.1] at here
  refine ⟨m, f, loaded, opened, by rw [shape]; decide, tabulated,
    (Layout.ends_open words given opened (by decide) (by omega)).1.mpr bottom, read, ?_⟩
  rw [← Option.some.inj here, column, stripValues_edge.1, stripValues_edge.2]
  norm_num

end HaloMesh
