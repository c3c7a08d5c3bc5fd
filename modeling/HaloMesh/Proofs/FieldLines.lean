import HaloMesh.Mesh.Exchange
import Mathlib.Data.List.Nodup
import Mathlib.Tactic.Ring

/-! A field as its z lines. Writing one line leaves the others alone, so what is spread over a block of
columns is found there again, and nowhere else. -/

namespace HaloMesh

variable {α : Type}

namespace Field

def line (f : Field α) (x y : Int) : List α :=
  let i := (f.lineStart x y).toNat
  (f.data.extract i (i + f.nz)).toList

def HasColumn (f : Field α) (x y : Int) : Prop := (0 ≤ x ∧ x < f.nx) ∧ 0 ≤ y ∧ y < f.ny

/-- Fields that differ in their values only. -/
structure Alike (f g : Field α) : Prop where
  nx : g.nx = f.nx
  ny : g.ny = f.ny
  nz : g.nz = f.nz
  size : g.data.size = f.data.size
  loc : g.loc = f.loc
  aligned : g.aligned = f.aligned

variable {f g h : Field α} {x y x' y' : Int}

theorem Alike.refl (f : Field α) : Alike f f := ⟨rfl, rfl, rfl, rfl, rfl, rfl⟩

theorem Alike.trans (first : Alike f g) (second : Alike g h) : Alike f h :=
  ⟨second.nx.trans first.nx, second.ny.trans first.ny, second.nz.trans first.nz, second.size.trans first.size,
    second.loc.trans first.loc, second.aligned.trans first.aligned⟩

theorem Alike.fits (alike : Alike f g) (fits : f.Fits) : g.Fits := by
  simpa only [Fits, alike.nx, alike.ny, alike.nz] using fits

theorem Alike.hasColumn (alike : Alike f g) : g.HasColumn x y ↔ f.HasColumn x y := by
  simp only [HasColumn, alike.nx, alike.ny]

theorem Alike.lineStart (alike : Alike f g) : g.lineStart x y = f.lineStart x y := by
  simp only [Field.lineStart, index, alike.ny, alike.nz]

theorem setLine_alike (f : Field α) (x y : Int) (values : List α) : Alike f (f.setLine x y values) :=
  ⟨rfl, rfl, rfl, size_writeRun .., rfl, rfl⟩

/-- The lines of a field stand one after the other in its storage. -/
theorem lineStart_eq (fits : f.Fits) {a b : Nat} (inside : a < f.nx) (within : b < f.ny) :
    f.lineStart a b = (f.nz * (b + f.ny * a) : Nat) ∧ f.nz * (b + f.ny * a) + f.nz ≤ f.data.size := by
  have place : b + f.ny * a + 1 ≤ f.nx * f.ny := by
    calc b + f.ny * a + 1 ≤ f.ny * (a + 1) := by rw [Nat.mul_add]; omega
      _ ≤ f.ny * f.nx := Nat.mul_le_mul_left _ inside
      _ = f.nx * f.ny := Nat.mul_comm _ _
  have stop : f.nz * (b + f.ny * a) + f.nz ≤ f.nx * f.ny * f.nz := by
    calc f.nz * (b + f.ny * a) + f.nz = f.nz * (b + f.ny * a + 1) := by ring
      _ ≤ f.nz * (f.nx * f.ny) := Nat.mul_le_mul_left _ place
      _ = f.nx * f.ny * f.nz := Nat.mul_comm _ _
  refine ⟨?_, by rw [size_of_fits fits]; exact stop⟩
  have limit : ((f.nx * f.ny * f.nz : Nat) : Int) ≤ 35184372088832 := fits
  have same : (0 : Int) + f.nz * (b + f.ny * a) = (f.nz * (b + f.ny * a) : Nat) := by push_cast; ring
  rw [Field.lineStart, index, same]
  refine Index.wrap_of_fits ?_ ?_ <;> rw [Index.wordEnd_eq] <;> omega

theorem line_of_start {start : Nat} (starts : f.lineStart x y = start) :
    f.line x y = (f.data.extract start (start + f.nz)).toList := by
  rw [line, starts]
  rfl

theorem exists_start (fits : f.Fits) (has : f.HasColumn x y) : ∃ place : Nat,
    f.lineStart x y = (f.nz * place : Nat) ∧ f.nz * place + f.nz ≤ f.data.size ∧ (place : Int) = y + f.ny * x := by
  obtain ⟨⟨lowX, highX⟩, lowY, highY⟩ := has
  obtain ⟨a, rfl⟩ := Int.eq_ofNat_of_zero_le lowX
  obtain ⟨b, rfl⟩ := Int.eq_ofNat_of_zero_le lowY
  obtain ⟨start, stop⟩ := lineStart_eq fits (a := a) (b := b) (by omega) (by omega)
  exact ⟨b + f.ny * a, start, stop, by push_cast; rfl⟩

theorem length_line (fits : f.Fits) (has : f.HasColumn x y) : (f.line x y).length = f.nz := by
  obtain ⟨place, start, stop, -⟩ := exists_start fits has
  rw [line_of_start start, Array.length_toList, Array.size_extract]
  omega

theorem getElem?_writeRun (data : Array α) (start : Nat) (values : List α) (i : Nat) :
    (writeRun data start values)[i]? =
      if start ≤ i ∧ i < start + values.length ∧ i < data.size then values[i - start]? else data[i]? := by
  induction values generalizing data start with
  | nil => grind [writeRun]
  | cons v rest ih =>
    rw [writeRun, ih]
    grind

theorem extract_writeRun (data : Array α) (start : Nat) (values : List α) (room : start + values.length ≤ data.size) :
    ((writeRun data start values).extract start (start + values.length)).toList = values := by
  apply List.ext_getElem?
  intro k
  simp only [Array.getElem?_toList, Array.getElem?_extract, getElem?_writeRun, size_writeRun]
  grind

theorem extract_writeRun_apart (data : Array α) (start first last : Nat) (values : List α)
    (apart : last ≤ start ∨ start + values.length ≤ first) :
    (writeRun data start values).extract first last = data.extract first last := by
  apply Array.ext_getElem?
  intro k
  simp only [Array.getElem?_extract, getElem?_writeRun, size_writeRun]
  grind

theorem place_inj {f : Field α} (has : f.HasColumn x y) (has' : f.HasColumn x' y')
    (same : y' + f.ny * x' = y + f.ny * x) : x' = x ∧ y' = y := by
  obtain ⟨⟨lowX, highX⟩, lowY, highY⟩ := has
  obtain ⟨⟨lowX', highX'⟩, lowY', highY'⟩ := has'
  have quotient (a b : Int) (low : 0 ≤ b) (high : b < f.ny) : (b + f.ny * a) / f.ny = a := by
    rw [Int.add_mul_ediv_left _ _ (by omega), Int.ediv_eq_zero_of_lt low high, Int.zero_add]
  have columns : x' = x := by rw [← quotient x' y' lowY' highY', same, quotient x y lowY highY]
  subst columns
  omega

/-- A line that was written is read back, and every other line is as it was. -/
theorem line_setLine (fits : f.Fits) (has : f.HasColumn x y) (has' : f.HasColumn x' y') {values : List α}
    (length : values.length = f.nz) :
    (f.setLine x y values).line x' y' = if x' = x ∧ y' = y then values else f.line x' y' := by
  obtain ⟨place, start, stop, number⟩ := exists_start fits has
  obtain ⟨place', start', stop', number'⟩ := exists_start fits has'
  have starts : (f.setLine x y values).lineStart x' y' = (f.nz * place' : Nat) :=
    (setLine_alike f x y values).lineStart.trans start'
  have data : (f.setLine x y values).data = writeRun f.data (f.nz * place) values :=
    congrArg (fun i : Int => writeRun f.data i.toNat values) start
  have nz : (f.setLine x y values).nz = f.nz := rfl
  rw [line_of_start starts, line_of_start start', data, nz]
  by_cases same : x' = x ∧ y' = y
  · obtain ⟨rfl, rfl⟩ := same
    obtain rfl : place = place' := by omega
    rw [if_pos ⟨rfl, rfl⟩]
    simpa only [length] using extract_writeRun f.data (f.nz * place) values (by omega)
  · rw [if_neg same, extract_writeRun_apart]
    have apart : place' ≠ place := by
      intro equal
      subst equal
      exact same (place_inj has has' (number'.symm.trans number))
    rcases Nat.lt_or_gt_of_ne apart with less | more
    · exact .inl (by rw [← Nat.mul_succ]; exact Nat.mul_le_mul_left _ less)
    · exact .inr (by rw [length, ← Nat.mul_succ]; exact Nat.mul_le_mul_left _ more)

end Field

/-! The transform of a line gives a line of the same length. -/

namespace Fourier

private theorem size_foldl {β : Type} (step : Array α → β → Array α) (keeps : ∀ a b, (step a b).size = a.size)
    (items : List β) (line : Array α) : (items.foldl step line).size = line.size := by
  induction items generalizing line with
  | nil => rfl
  | cons item rest ih => rw [List.foldl_cons, ih, keeps]

theorem Stage.size_write (place : Nat → Nat) (values : List α) (line : Array α) :
    (Stage.write place values line).size = line.size :=
  size_foldl _ (fun _ _ => Array.size_setIfInBounds) _ line

theorem Stage.size_writePairs (place : Nat → Nat) (values : List (Complex α)) (line : Array α) :
    (Stage.writePairs place values line).size = line.size :=
  size_foldl _ (fun _ _ => by rw [Array.size_setIfInBounds, Array.size_setIfInBounds]) _ line

variable [Scalar α]

theorem Stage.size_backward (s : Stage α) (line : Array α) : (s.backward line).size = line.size := by
  refine size_foldl _ (fun out k => ?_) _ line
  have pairs (out : Array α) : (s.pairs.foldl (fun out i =>
      let values := s.radix.complexValues (readPairs line (s.pairPlace i k) s.radix.points)
      let turned := values.take 1 ++ List.zipWith (· * ·) (s.turnsAt i) (values.drop 1)
      writePairs (s.apart (2 * i - 1) k) turned out) out).size = out.size :=
    size_foldl _ (fun _ _ => Stage.size_writePairs ..) _ out
  dsimp only
  split
  · rw [Stage.size_write, pairs, Stage.size_write]
  · rw [pairs, Stage.size_write]

omit [Scalar α] in
/-- Mode `k` of a line and those after it stand from place `2 * k - 1` on. -/
theorem length_pairs (n : Nat) (modes : List (Complex α)) (k : Nat) (later : 0 < k) (all : k + modes.length = n / 2 + 1) :
    ((modes.zipIdx k).flatMap fun (z, k) => if k = 0 || 2 * k = n then [z.re] else [z.re, z.im]).length =
      n + 1 - 2 * k := by
  induction modes generalizing k with
  | nil =>
    simp only [List.length_nil] at all
    simp only [List.zipIdx_nil, List.flatMap_nil, List.length_nil]
    omega
  | cons z rest ih =>
    simp only [List.length_cons] at all
    rw [List.zipIdx_cons, List.flatMap_cons, List.length_append, ih (k + 1) (by omega) (by omega)]
    by_cases middle : 2 * k = n
    · simp [middle]
      omega
    · simp [middle, Nat.ne_of_gt later]
      omega

omit [Scalar α] in
theorem size_pack (n : Nat) (positive : 0 < n) (modes : List (Complex α)) (count : modes.length = n / 2 + 1) :
    (pack n modes).size = n := by
  cases modes with
  | nil => simp at count
  | cons z rest =>
    have tail := length_pairs n rest 1 (by omega) (by simp only [List.length_cons] at count; omega)
    simp only [pack, List.zipIdx_cons, List.flatMap_cons, List.size_toArray, List.length_append, Nat.zero_add, tail]
    simp
    omega

theorem size_synthesise (n : Nat) (positive : 0 < n) (stages : List (Stage α)) (modes : List (Complex α))
    (count : modes.length = n / 2 + 1) : (synthesise n stages modes).size = n := by
  rw [synthesise, size_foldl _ (fun line s => Stage.size_backward s line), size_pack n positive modes count]

end Fourier

theorem Modes.size_shift [Scalar α] {n : Nat} {modes : Modes α} (made : Modes.ofLength n = .ok modes) (line : Array α)
    (fraction : α) : (modes.shift line fraction).size = n := by
  simp only [Modes.ofLength] at made
  split at made
  · cases made
  next positive =>
    cases made
    refine Fourier.size_synthesise n (by omega) _ _ ?_
    simp [Fourier.analyse, Fourier.unpack]

/-! Blocks of columns. -/

namespace Block

def Contains (b : Block) (x y : Int) : Prop := (b.x0 ≤ x ∧ x ≤ b.x1) ∧ b.y0 ≤ y ∧ y ≤ b.y1

instance (b : Block) (x y : Int) : Decidable (b.Contains x y) := inferInstanceAs (Decidable (_ ∧ _))

theorem mem_columns {b : Block} {x y : Int} : (x, y) ∈ b.columns ↔ b.Contains x y := by
  simp only [columns, List.mem_flatMap, List.mem_map, Index.mem_span, Prod.mk.injEq, Contains]
  constructor
  · intro holds
    obtain ⟨_, inX, _, inY, rfl, rfl⟩ := holds
    exact ⟨inX, inY⟩
  · intro holds
    obtain ⟨inX, inY⟩ := holds
    exact ⟨x, inX, y, inY, rfl, rfl⟩

theorem nodup_span (lo hi : Int) : (Index.span lo hi).Nodup := by
  refine (List.nodup_map_iff fun a b same => ?_).mpr List.nodup_range
  simpa using same

theorem nodup_columns (b : Block) : b.columns.Nodup := by
  refine List.nodup_flatMap.mpr ⟨fun x _ => ?_, ?_⟩
  · exact (List.nodup_map_iff fun a b same => (Prod.mk.inj same).2).mpr (nodup_span _ _)
  · refine (nodup_span b.x0 b.x1).imp fun {x x'} apart => ?_
    intro c first second
    obtain ⟨_, -, rfl⟩ := List.mem_map.mp first
    obtain ⟨_, -, same⟩ := List.mem_map.mp second
    exact apart (Prod.mk.inj same).1.symm

def Within (b : Block) (f : Field α) : Prop := ∀ x y, b.Contains x y → f.HasColumn x y

def spread (b : Block) (f : Field α) (lines : Int → Int → List α) : Field α :=
  b.columns.foldl (fun g c => g.setLine c.1 c.2 (lines c.1 c.2)) f

/-- The values that fill a block of several fields with given lines. -/
def message (b : Block) (contents : List (Int → Int → List α)) : List α :=
  contents.flatMap fun lines => b.columns.flatMap fun c => lines c.1 c.2

variable {b : Block} {f : Field α} {lines : Int → Int → List α}

/-- Steps that each change the line of a column of their own change the lines of all these columns, and no other. -/
theorem foldlM_columns {ι : Type} {nz : Nat} {step : Field α → ι → Outcome (Field α)} (place : ι → Int × Int)
    (change : Int → Int → List α → List α) (columns : List ι) (nodup : (columns.map place).Nodup)
    (one : ∀ c ∈ columns, ∀ f : Field α, f.Fits → f.nz = nz → f.HasColumn (place c).1 (place c).2 →
      ∃ g, step f c = .ok g ∧ Field.Alike f g ∧ ∀ x y, f.HasColumn x y →
        g.line x y = if x = (place c).1 ∧ y = (place c).2 then change x y (f.line x y) else f.line x y)
    (f : Field α) (fits : f.Fits) (points : f.nz = nz) (within : ∀ c ∈ columns, f.HasColumn (place c).1 (place c).2) :
    ∃ g, columns.foldlM step f = .ok g ∧ Field.Alike f g ∧ ∀ x y, f.HasColumn x y →
      g.line x y = if (x, y) ∈ columns.map place then change x y (f.line x y) else f.line x y := by
  induction columns generalizing f with
  | nil => exact ⟨f, rfl, Field.Alike.refl f, fun x y _ => by simp⟩
  | cons c rest ih =>
    obtain ⟨fresh, distinct⟩ := List.nodup_cons.mp nodup
    obtain ⟨g, first, alike, here⟩ := one c List.mem_cons_self f fits points (within c List.mem_cons_self)
    obtain ⟨h, others, later, there⟩ := ih distinct (fun d member => one d (List.mem_cons_of_mem _ member)) g
      (alike.fits fits) (alike.nz.trans points)
      (fun d member => alike.hasColumn.mpr (within d (List.mem_cons_of_mem _ member)))
    refine ⟨h, ?_, alike.trans later, fun x y has => ?_⟩
    · rw [List.foldlM_cons, first]
      exact others
    rw [there x y (alike.hasColumn.mpr has), here x y has]
    by_cases same : x = (place c).1 ∧ y = (place c).2
    · obtain ⟨rfl, rfl⟩ := same
      simp [fresh]
    · have other : ¬ (x, y) = place c := fun equal => same ⟨congrArg Prod.fst equal, congrArg Prod.snd equal⟩
      simp [same, other]

theorem foldl_columns {nz : Nat} {step : Field α → Int × Int → Field α} (change : Int → Int → List α → List α)
    (columns : List (Int × Int)) (nodup : columns.Nodup)
    (one : ∀ c ∈ columns, ∀ f : Field α, f.Fits → f.nz = nz → f.HasColumn c.1 c.2 → Field.Alike f (step f c) ∧
      ∀ x y, f.HasColumn x y →
        (step f c).line x y = if x = c.1 ∧ y = c.2 then change x y (f.line x y) else f.line x y)
    (f : Field α) (fits : f.Fits) (points : f.nz = nz) (within : ∀ c ∈ columns, f.HasColumn c.1 c.2) :
    Field.Alike f (columns.foldl step f) ∧ ∀ x y, f.HasColumn x y →
      (columns.foldl step f).line x y = if (x, y) ∈ columns then change x y (f.line x y) else f.line x y := by
  obtain ⟨g, folded, alike, lines⟩ : ∃ g, columns.foldlM (fun f c => (pure (step f c) : Outcome (Field α))) f = .ok g ∧
      Field.Alike f g ∧ ∀ x y, f.HasColumn x y →
        g.line x y = if (x, y) ∈ columns.map id then change x y (f.line x y) else f.line x y :=
    foldlM_columns id change columns (by rwa [List.map_id])
      (fun c member f fits points has => ⟨step f c, rfl, one c member f fits points has⟩) f fits points within
  rw [List.foldlM_pure] at folded
  cases folded
  rw [List.map_id] at lines
  exact ⟨alike, lines⟩

private theorem spread_columns (fits : f.Fits) (within : b.Within f)
    (lengths : ∀ x y, b.Contains x y → (lines x y).length = f.nz) :
    Field.Alike f (b.spread f lines) ∧ ∀ x y, f.HasColumn x y →
      (b.spread f lines).line x y = if (x, y) ∈ b.columns then lines x y else f.line x y := by
  refine foldl_columns (fun x y _ => lines x y) b.columns b.nodup_columns ?_ f fits rfl
    fun c member => within c.1 c.2 (mem_columns.mp member)
  intro c member g room points has
  refine ⟨g.setLine_alike .., fun x y there => ?_⟩
  rw [Field.line_setLine room has there ((lengths c.1 c.2 (mem_columns.mp member)).trans points.symm)]
  split
  next same => rw [same.1, same.2]
  next => rfl

theorem spread_alike (fits : f.Fits) (within : b.Within f)
    (lengths : ∀ x y, b.Contains x y → (lines x y).length = f.nz) : Field.Alike f (b.spread f lines) :=
  (spread_columns fits within lengths).1

/-- A block holds the lines that were spread over it, and all else is as it was. -/
theorem line_spread (fits : f.Fits) (within : b.Within f)
    (lengths : ∀ x y, b.Contains x y → (lines x y).length = f.nz) {x y : Int} (has : f.HasColumn x y) :
    (b.spread f lines).line x y = if b.Contains x y then lines x y else f.line x y := by
  simpa only [mem_columns] using (spread_columns fits within lengths).2 x y has

private theorem unpackColumns_eq (columns : List (Int × Int)) (f : Field α) (rest : List α)
    (lengths : ∀ c ∈ columns, (lines c.1 c.2).length = f.nz) :
    unpackColumns f columns (columns.flatMap (fun c => lines c.1 c.2) ++ rest) =
      (columns.foldl (fun g c => g.setLine c.1 c.2 (lines c.1 c.2)) f, rest) := by
  induction columns generalizing f with
  | nil => rfl
  | cons c later ih =>
    have length := lengths c List.mem_cons_self
    rw [List.flatMap_cons, List.append_assoc, unpackColumns, ← length, List.take_left, List.drop_left, List.foldl_cons]
    exact ih _ fun d member => lengths d (List.mem_cons_of_mem _ member)

theorem unpack_message (b : Block) (fields : List (Field α)) (contents : List (Int → Int → List α))
    (count : contents.length = fields.length)
    (lengths : ∀ f ∈ fields, ∀ lines ∈ contents, ∀ x y, b.Contains x y → (lines x y).length = f.nz) :
    b.unpack fields (b.message contents) = List.zipWith b.spread fields contents := by
  induction fields generalizing contents with
  | nil => rfl
  | cons f rest ih =>
    cases contents with
    | nil => simp at count
    | cons lines later =>
      have own : ∀ c ∈ b.columns, (lines c.1 c.2).length = f.nz := fun c member =>
        lengths f List.mem_cons_self lines List.mem_cons_self c.1 c.2 (mem_columns.mp member)
      rw [unpack, message, List.flatMap_cons, unpackColumns_eq b.columns f _ own]
      simp only [List.zipWith_cons_cons, spread, List.cons.injEq, true_and]
      exact ih later (by simpa using count) fun g member other among =>
        lengths g (List.mem_cons_of_mem _ member) other (List.mem_cons_of_mem _ among)

private theorem length_lines {nz : Nat} (columns : List (Int × Int))
    (lengths : ∀ c ∈ columns, (lines c.1 c.2).length = nz) :
    (columns.flatMap fun c => lines c.1 c.2).length = columns.length * nz := by
  induction columns with
  | nil => simp
  | cons c rest ih =>
    rw [List.flatMap_cons, List.length_append, lengths c List.mem_cons_self,
      ih fun d member => lengths d (List.mem_cons_of_mem _ member), List.length_cons, Nat.succ_mul, Nat.add_comm]

theorem length_message {nz : Nat} (contents : List (Int → Int → List α))
    (lengths : ∀ lines ∈ contents, ∀ x y, b.Contains x y → (lines x y).length = nz) :
    (b.message contents).length = contents.length * (b.columns.length * nz) := by
  induction contents with
  | nil => simp [message]
  | cons lines rest ih =>
    have own : (b.columns.flatMap fun c => lines c.1 c.2).length = b.columns.length * nz :=
      length_lines b.columns fun c member => lengths lines List.mem_cons_self c.1 c.2 (mem_columns.mp member)
    have later := ih fun other member => lengths other (List.mem_cons_of_mem _ member)
    rw [message] at later ⊢
    rw [List.flatMap_cons, List.length_append, own, later, List.length_cons, Nat.succ_mul, Nat.add_comm]

theorem size_eq {nz : Nat} (fields : List (Field α)) (alike : ∀ f ∈ fields, f.nz = nz) :
    b.size fields = fields.length * (b.columns.length * nz) := by
  induction fields with
  | nil => simp [size]
  | cons f rest ih =>
    have later := ih fun g member => alike g (List.mem_cons_of_mem _ member)
    rw [size] at later ⊢
    rw [List.foldr_cons, later, alike f List.mem_cons_self, List.length_cons, Nat.succ_mul, Nat.add_comm]

private theorem exists_lines (nz : Nat) (columns : List (Int × Int)) (nodup : columns.Nodup) (values : List α)
    (length : values.length = columns.length * nz) : ∃ lines : Int → Int → List α,
      (∀ c ∈ columns, (lines c.1 c.2).length = nz) ∧ values = columns.flatMap fun c => lines c.1 c.2 := by
  induction columns generalizing values with
  | nil => exact ⟨fun _ _ => [], by simp, by simpa using length⟩
  | cons c rest ih =>
    obtain ⟨fresh, distinct⟩ := List.nodup_cons.mp nodup
    rw [List.length_cons, Nat.succ_mul] at length
    obtain ⟨lines, lengths, same⟩ := ih distinct (values.drop nz) (by rw [List.length_drop]; omega)
    have other (d : Int × Int) (member : d ∈ rest) : ¬ (d.1 = c.1 ∧ d.2 = c.2) := fun equal =>
      fresh (Prod.ext equal.1 equal.2 ▸ member)
    refine ⟨fun x y => if x = c.1 ∧ y = c.2 then values.take nz else lines x y, ?_, ?_⟩
    · intro d member
      rcases List.mem_cons.mp member with rfl | later
      · simp only [and_self, ↓reduceIte, List.length_take]
        omega
      · simpa only [other d later, ↓reduceIte] using lengths d later
    · have tail : (rest.flatMap fun d => if d.1 = c.1 ∧ d.2 = c.2 then values.take nz else lines d.1 d.2) =
          rest.flatMap fun d => lines d.1 d.2 :=
        List.flatMap_congr fun d member => by simp only [other d member, ↓reduceIte]
      rw [List.flatMap_cons, tail, ← same]
      simp

/-- Whatever arrives in the right number can be read as lines for the block of each field. -/
theorem exists_contents (b : Block) (nz count : Nat) (values : List α)
    (length : values.length = count * (b.columns.length * nz)) : ∃ contents : List (Int → Int → List α),
      contents.length = count ∧ (∀ lines ∈ contents, ∀ x y, b.Contains x y → (lines x y).length = nz) ∧
        values = b.message contents := by
  induction count generalizing values with
  | zero => exact ⟨[], rfl, by simp, by simpa [message] using length⟩
  | succ count ih =>
    rw [Nat.succ_mul] at length
    obtain ⟨first, lengths, same⟩ := exists_lines nz b.columns b.nodup_columns
      (values.take (b.columns.length * nz)) (by rw [List.length_take]; omega)
    obtain ⟨rest, size, others, later⟩ := ih (values.drop (b.columns.length * nz)) (by rw [List.length_drop]; omega)
    refine ⟨first :: rest, by simp [size], ?_, ?_⟩
    · intro lines member x y inside
      rcases List.mem_cons.mp member with rfl | among
      · exact lengths (x, y) (mem_columns.mpr inside)
      · exact others lines among x y inside
    · rw [message, List.flatMap_cons, ← same, show (rest.flatMap fun lines => b.columns.flatMap fun c => lines c.1 c.2) =
        values.drop (b.columns.length * nz) from later.symm, List.take_append_drop]

def moved (b : Block) (dx dy : Int) : Block := ⟨b.x0 + dx, b.x1 + dx, b.y0 + dy, b.y1 + dy⟩

theorem columns_moved (b : Block) (dx dy : Int) :
    (b.moved dx dy).columns = b.columns.map fun c => (c.1 + dx, c.2 + dy) := by
  have span (lo hi d : Int) : Index.span (lo + d) (hi + d) = (Index.span lo hi).map (· + d) := by
    simp only [Index.span, List.map_map, show hi + d + 1 - (lo + d) = hi + 1 - lo by omega]
    apply List.map_congr_left
    intro k _
    simp only [Function.comp_apply]
    omega
  simp only [columns, moved, span, List.flatMap_map, List.map_flatMap, List.map_map]
  rfl

/-- The values of a block, read as lines for a block elsewhere. -/
theorem pack_moved (b : Block) (dx dy : Int) (fields : List (Field α)) :
    ((b.moved dx dy).pack fields).toList = b.message (fields.map fun f x y => f.line (x + dx) (y + dy)) := by
  simp only [pack, message, List.flatMap_map]
  apply List.flatMap_congr
  intro f _
  rw [packField, columns_moved, List.flatMap_map]
  rfl

end Block
end HaloMesh
