import Mathlib.Analysis.Real.Sqrt
import HaloMesh.Proofs.ConditionEstimate
import HaloMesh.Proofs.GridVariables
import HaloMesh.Proofs.JointCoordinates

/-! Grids with a constant diagonal metric. Their metric can be read and inverted everywhere, passes the check, and so gives
coordinates at the cell centres on all ranks. -/

namespace HaloMesh

/-- A field over a block, at the cell centres and in the standard frame, of one value. -/
structure Field.Constant {α : Type} [Scalar α] (f : Field α) (m : Mesh α) (v : α) : Prop where
  shaped : f.extents = m.extents
  loc : f.loc = .centre
  aligned : f.aligned = false
  values : ∀ n < f.data.size, f.valueAt n = v

namespace Symmetric

variable {m : Mesh ℝ} {upper : Symmetric (Field ℝ)} {s t : Symmetric ℝ} (constant : ∀ p, (upper.get p).Constant m (s.get p))
include constant

theorem pointAt_constant {n : Nat} (inside : n < upper.c11.data.size) : upper.pointAt n = s := by
  refine ext_get fun p => (get_ofFunction _ p).trans ((constant p).values n ?_)
  rwa [Field.size_congr ((constant p).shaped.trans (constant .p11).shaped.symm)]

theorem jacobian_constant : upper.jacobian.Constant m (1 / Scalar.sqrt s.determinant) := by
  refine ⟨(constant .p11).shaped, (constant .p11).loc, (constant .p11).aligned, fun n inside => ?_⟩
  have inside' : n < upper.c11.data.size := by rwa [jacobian, Field.tabulate, Array.size_ofFn] at inside
  rw [← pointAt_constant constant inside', Field.valueAt, jacobian, Field.tabulate]
  simp [inside', Exact.ofNat_eq]

/-- A constant tensor field has a constant inverse. -/
theorem inverse_constant (fits : upper.c11.Fits) (deep : 0 < upper.c11.nz)
    (inverted : ∀ x y, s.invertPoint x y = .ok (t, 0)) : ∃ lower : Symmetric (Field ℝ), upper.inverse = .ok lower ∧
      ∀ p, (lower.get p).Constant m (t.get p) := by
  have size := Field.size_of_fits fits
  have solved : ((List.range upper.c11.nx).flatMap fun x => (List.range upper.c11.ny).map fun y => (x, y)).mapM
      (fun c => invertPoint c.1 c.2 (upper.pointAt (upper.c11.nz * (c.2 + upper.c11.ny * c.1)))) =
        .ok (((List.range upper.c11.nx).flatMap fun x => (List.range upper.c11.ny).map fun y => (x, y)).map fun _ => (t, 0)) := by
    refine mapM_ok fun column member => ?_
    obtain ⟨x, columns, row⟩ := List.mem_flatMap.mp member
    obtain ⟨y, rows, rfl⟩ := List.mem_map.mp row
    have place : upper.c11.nz * (y + upper.c11.ny * x) < upper.c11.data.size := by
      have number : y + upper.c11.ny * x < upper.c11.nx * upper.c11.ny := by
        have := Nat.mul_le_mul_left upper.c11.ny (List.mem_range.mp columns)
        have := List.mem_range.mp rows
        nlinarith
      rw [size, Nat.mul_comm]
      exact Nat.mul_lt_mul_of_pos_right number deep
    rw [pointAt_constant constant place]
    exact inverted x y
  have exact_ (columns : List (Nat × Nat)) : (columns.map fun _ => (t, (0 : ℝ))).foldl
      (fun (worst : ℝ) (found : Symmetric ℝ × ℝ) => if Scalar.lt worst found.2 then found.2 else worst) 0 = 0 := by
    induction columns with
    | nil => rfl
    | cons column rest ih =>
      have equal : Scalar.lt (0 : ℝ) 0 = false := decide_eq_false (lt_irrefl _)
      rw [List.map_cons, List.foldl_cons, equal]
      exact ih
  have tolerated : Scalar.lt inverseTolerance (0 : ℝ) = false := by
    refine decide_eq_false (not_lt.mpr ?_)
    change (0 : ℝ) ≤ ((1 : Nat) : ℝ) / 10 ^ 10
    positivity
  obtain ⟨lower, made⟩ : ∃ lower, upper.inverse = .ok lower := by
    unfold inverse
    simp only [solved, bind, Except.bind, Exact.zero_eq, exact_, tolerated]
    exact ⟨_, rfl⟩
  obtain ⟨found, ran, tabulated⟩ := inverse_eq made
  obtain rfl := Except.ok.inj (solved.symm.trans ran)
  have alike (p : Pair) := inverse_alike made p
  refine ⟨lower, made, fun p => ⟨(alike p).extents.trans (constant .p11).shaped, (alike p).loc.trans (constant .p11).loc,
    (alike p).aligned.trans (constant .p11).aligned, fun n inside => ?_⟩⟩
  rw [(alike p).size] at inside
  have column : n / upper.c11.nz < upper.c11.nx * upper.c11.ny := by
    rw [Nat.div_lt_iff_lt_mul deep]
    omega
  rw [tabulated, Field.valueAt, Field.tabulate]
  simp [inside, column]

end Symmetric

/-- A grid that gives a diagonal metric and nothing else. -/
def GridSource.diagonal {α : Type} (a b c : α) : GridSource α := ⟨[("g11", a), ("g22", b), ("g33", c)], [], []⟩

theorem GridSource.hasVariable_diagonal {α : Type} {a b c : α} {name : String} (other : name ∉ ["g11", "g22", "g33"]) :
    (diagonal a b c).hasVariable name = false := by
  simp only [List.mem_cons, List.not_mem_nil, or_false, not_or] at other
  simp [diagonal, hasVariable, Named.find?, Ne.symm other.1, Ne.symm other.2.1, Ne.symm other.2.2]

section Reading

variable {α : Type} [Scalar α] {l : Layout α} {i : Nat} {m : Mesh α} {r : Rank α} {name : String} {a b c v w dflt : α}
  {f : Field α}

theorem Field.valueAt_fill {n : Nat} (inside : n < f.data.size) : (f.fill v).valueAt n = v := by
  simp [valueAt, fill, map, inside]

theorem Field.Constant.fill (constant : f.Constant m v) : (f.fill w).Constant m w := by
  refine ⟨constant.shaped, constant.loc, constant.aligned, fun n inside => Field.valueAt_fill ?_⟩
  rwa [Field.fill, Field.map, Array.size_map] at inside

theorem Field.Constant.value (constant : f.Constant m v) (fits : f.Fits) {x y z : Int} (has : f.HasPoint x y z) :
    f.value x y z = v := by
  have place := Field.place_range fits has
  exact constant.values _ (by omega)

theorem Layout.exists_constant (given : l.Assigns i m) (room : m.HasRoom) (v : α) : ∃ f : Field α,
    Field.const m.localNx m.localNy m.localNz v (.real .centre) = .ok f ∧ f.Constant m v := by
  obtain ⟨f, made, shaped, loc, aligned⟩ := exists_const given room v
  refine ⟨f, made, shaped, loc, aligned, fun n inside => ?_⟩
  unfold Field.const at made
  split at made
  · cases made
  · simp only [Placement.orElse] at made
    split at made
    · cases made
      rw [Array.size_replicate] at inside
      rw [Field.valueAt, Array.getElem?_replicate, if_pos inside, Option.getD_some]
    · cases made

variable (given : l.Assigns i m) (room : m.HasRoom)
include given room

theorem Mesh.getField_missing (missing : m.source.hasVariable name = false) (dflt : α) :
    ∃ f : Field α, f.Constant m dflt ∧ m.getField name dflt = .ok (f, some (.variableMissing name)) := by
  obtain ⟨f, made, constant⟩ := Layout.exists_constant given room dflt
  refine ⟨f, constant, ?_⟩
  simp only [getField, made, bind, Except.bind, missing, Bool.not_false, ↓reduceIte]
  rfl

theorem Mesh.getField_scalar (has : m.source.hasVariable name = true) (scalar : m.source.scalar name = .ok v) (dflt : α) :
    ∃ f : Field α, f.Constant m v ∧ m.getField name dflt = .ok (f, none) := by
  obtain ⟨f, made, constant⟩ := Layout.exists_constant given room dflt
  refine ⟨_, constant.fill, ?_⟩
  simp only [getField, made, bind, Except.bind, has, scalar, Bool.not_true, Bool.false_eq_true, ↓reduceIte]
  rfl

variable (own : r.mesh = m)
include own

/-- A scalar of the grid fills a field. -/
theorem Rank.readsScalar (has : m.source.hasVariable name = true) (scalar : m.source.scalar name = .ok v) (dflt : α) :
    ∃ f : Field α, f.Constant m v ∧ r.Returns (RankM.gridField name dflt) f := by
  obtain ⟨f, constant, read⟩ := Mesh.getField_scalar given room has scalar dflt
  exact ⟨f, constant, (returns_mesh own).bind <| (returns_ofOutcome read).bind rfl⟩

/-- What the grid does not give is the default. -/
theorem Rank.readsDefault (missing : m.source.hasVariable name = false) (dflt : α) :
    ∃ f : Field α, f.Constant m dflt ∧ r.Returns (RankM.gridField name dflt) f := by
  obtain ⟨f, constant, read⟩ := Mesh.getField_missing given room missing dflt
  exact ⟨f, constant, (returns_mesh own).bind <| (returns_ofOutcome read).bind rfl⟩

/-- What the grid does not give is computed. -/
theorem Rank.readsComputed (missing : m.source.hasVariable name = false) (warning : String) (computed : Field α) :
    r.Returns (RankM.gridOrComputed name warning computed) computed := by
  obtain ⟨f, -, read⟩ := Mesh.getField_missing given room missing 0
  exact (returns_mesh own).bind <| (returns_ofOutcome read).bind rfl

theorem Rank.readsTensor (source : m.source = .diagonal a b c) (p : Pair) : ∃ f : Field α,
    f.Constant m ((⟨a, b, c, 0, 0, 0⟩ : Symmetric α).get p) ∧
      r.Returns (RankM.gridField (Quantity.contravariant p).name (if p.isDiagonal then 1 else 0)) f := by
  cases p with
  | p11 | p22 | p33 =>
    refine readsScalar given room own ?_ ?_ _ <;> rw [source] <;>
      simp [GridSource.diagonal, GridSource.hasVariable, GridSource.scalar, GridSource.found, Named.find?, Quantity.name, Pair.name,
        Symmetric.get]
  | p12 | p13 | p23 =>
    refine readsDefault given room own ?_ _
    rw [source]
    exact GridSource.hasVariable_diagonal (by decide)

omit [Scalar α] given room own in
theorem Rank.returns_ofFunctionM {β : Type} {make : Pair → RankM α β} {g : Pair → β} (each : ∀ p, r.Returns (make p) (g p)) :
    r.Returns (Symmetric.ofFunctionM make) (.ofFunction g) :=
  (each .p11).bind <| (each .p22).bind <| (each .p33).bind <| (each .p12).bind <| (each .p13).bind <| (each .p23).bind rfl

/-- A metric of a grid that gives neither jacobian nor field strength. -/
theorem Rank.returns_readMetric (noJ : m.source.hasVariable "J" = false) (noB : m.source.hasVariable "Bxy" = false)
    {dx dy shift twice bxy : Field α} {upper lower : Symmetric (Field α)} (readX : r.Returns (RankM.gridField "dx" 1) dx)
    (readY : r.Returns (RankM.gridField "dy" 1) dy)
    (read : ∀ p, r.Returns (RankM.gridField (Quantity.contravariant p).name (if p.isDiagonal then 1 else 0)) (upper.get p))
    (readShift : r.Returns (RankM.gridField "ShiftTorsion" 0) shift)
    (readTwice : r.Returns (RankM.gridField "IntShiftTorsion" 0) twice) (inverted : upper.inverse = .ok lower)
    (divided : lower.c22.sqrt.div upper.jacobian = .ok bxy) : ∃ raw : Coordinates α, r.Returns RankM.readMetric raw ∧
      raw.loc = .centre ∧ raw.dx = dx ∧ raw.dy = dy ∧ raw.contravariant = upper ∧ raw.covariant = lower ∧
      raw.jacobian = upper.jacobian ∧ raw.bxy = bxy := by
  have tensor := returns_ofFunctionM read
  rw [show Symmetric.ofFunction upper.get = upper from rfl] at tensor
  have lowered : upper.inverse.mapError Failure.returned = .ok lower := by
    rw [inverted]
    rfl
  exact ⟨_, (returns_mesh own).bind <| readX.bind <| readY.bind <| tensor.bind <| readShift.bind <| readTwice.bind <|
    (returns_ofOutcome lowered).bind <| (readsComputed given room own noJ _ _).bind <| (returns_ofOutcome divided).bind <|
    (readsComputed given room own noB _ _).bind rfl, rfl, rfl, rfl, rfl, rfl, rfl, rfl⟩

end Reading

section Diagonal

variable {l : Layout ℝ} {i : Nat} {m : Mesh ℝ} {r : Rank ℝ} {a b c : ℝ}

/-- A metric of constant fields that have the right signs passes the check. -/
theorem Coordinates.check_of_constant {c : Coordinates ℝ} (holds : ∀ f : Field ℝ, f.extents = m.extents → m.Holds f)
    (here : c.loc = .centre) (known : ∀ q ∈ Quantity.metric, q ≠ .bxy → ∃ v, (c.get q).Constant m v ∧
      (q.isPositive = true → 0 < v) ∧ (q = .jacobian → v ≠ 0)) (strength : Field.Alike c.dx c.bxy) :
    c.Covers m false ∧ c.check m = .ok () := by
  have shaped (q : Quantity) (member : q ∈ Quantity.metric) : (c.get q).extents = m.extents ∧ (c.get q).loc = .centre := by
    by_cases other : q = .bxy
    · subst other
      obtain ⟨v, constant, -⟩ := known .dx (by decide) (by decide)
      exact ⟨strength.extents.trans constant.shaped, strength.loc.trans constant.loc⟩
    · obtain ⟨v, constant, -⟩ := known q member other
      exact ⟨constant.shaped, constant.loc⟩
  refine ⟨⟨here, shaped, fun q member other => ?_⟩, check_of_sound fun q member x y interior => ?_⟩
  · obtain ⟨v, constant, -⟩ := known q member other
    exact constant.aligned
  · have block := holds _ (shaped q member).1
    have has := (block.interior_point interior (le_refl 0) (by have := block.points; omega)).1
    refine ⟨_, Field.get_eq block.fits has, ?_⟩
    by_cases other : q = .bxy
    · subst other
      exact defect?_none (fun positive => by cases positive) fun same => by cases same
    · obtain ⟨v, constant, positive, nonzero⟩ := known q member other
      rw [constant.value block.fits has]
      exact defect?_none positive nonzero

/-- The metric of a grid that gives a diagonal one can be read and passes the check. -/
theorem Rank.readsDiagonal (given : l.Assigns i m) (room : m.HasRoom) (own : r.mesh = m) (moderate : Condition.Moderate a b c)
    (source : m.source = .diagonal a b c) :
    ∃ raw : Coordinates ℝ, r.Returns RankM.readMetric raw ∧ raw.Covers m false ∧ raw.check m = .ok () := by
  have zero : @OfNat.ofNat ℝ 0 (Scalar.instOfNatScalar 0) = 0 := Exact.zero_eq
  have one : @OfNat.ofNat ℝ 1 (Scalar.instOfNatScalar 1) = 1 := by rw [Exact.ofNat_eq, Nat.cast_one]
  have missing {name : String} (other : name ∉ ["g11", "g22", "g33"]) : m.source.hasVariable name = false := by
    rw [source]
    exact GridSource.hasVariable_diagonal other
  obtain ⟨dx, constantX, readX⟩ := readsDefault given room own (missing (by decide : "dx" ∉ _)) _
  obtain ⟨dy, constantY, readY⟩ := readsDefault given room own (missing (by decide : "dy" ∉ _)) _
  obtain ⟨shift, -, readShift⟩ := readsDefault given room own (missing (by decide : "ShiftTorsion" ∉ _)) _
  obtain ⟨twice, -, readTwice⟩ := readsDefault given room own (missing (by decide : "IntShiftTorsion" ∉ _)) _
  choose g constant read using readsTensor given room own source
  have holds (f : Field ℝ) (block : f.extents = m.extents) : m.Holds f := Layout.holds given room block
  have upper (p : Pair) : ((Symmetric.ofFunction g).get p).Constant m ((⟨a, b, c, 0, 0, 0⟩ : Symmetric ℝ).get p) := by
    rw [Symmetric.get_ofFunction, ← zero]
    exact constant p
  have whole : m.Holds (Symmetric.ofFunction g).c11 := holds _ (upper .p11).shaped
  have deep : 0 < (Symmetric.ofFunction g).c11.nz := by
    have := whole.points
    have := whole.sizes.2.2
    omega
  obtain ⟨lower, inverted, lowered⟩ := Symmetric.inverse_constant upper whole.fits deep (Symmetric.invertPoint_diagonal moderate)
  have jacobian := Symmetric.jacobian_constant upper
  have rooted : Field.Alike (lower.get .p22) lower.c22.sqrt := ⟨rfl, rfl, rfl, Array.size_map .., rfl, rfl⟩
  have alike : Field.Alike lower.c22.sqrt (Symmetric.ofFunction g).jacobian := rooted.symm.trans (.of_extents
    (jacobian.shaped.trans (lowered .p22).shaped.symm) (jacobian.loc.trans (lowered .p22).loc.symm)
    (jacobian.aligned.trans (lowered .p22).aligned.symm))
  obtain ⟨bxy, divided, alikeB, -⟩ := Field.combine_alike (rooted.fits (holds _ (lowered .p22).shaped).fits) alike "Div" (· / ·)
  obtain ⟨raw, readRaw, here, sameX, sameY, sameU, sameL, sameJ, sameB⟩ := returns_readMetric given room own
    (missing (by decide : "J" ∉ _)) (missing (by decide : "Bxy" ∉ _)) readX readY
    (fun p => (Symmetric.get_ofFunction g p).symm ▸ read p) readShift readTwice inverted divided
  obtain ⟨first, second, third⟩ := moderate
  have above (p : Pair) (diagonal : p.isDiagonal = true) : 0 < (⟨a, b, c, 0, 0, 0⟩ : Symmetric ℝ).get p := by
    cases p <;> dsimp only [Symmetric.get] <;> first | linarith | cases diagonal
  have below (p : Pair) (diagonal : p.isDiagonal = true) : 0 < (⟨1 / a, 1 / b, 1 / c, 0, 0, 0⟩ : Symmetric ℝ).get p := by
    cases p <;> dsimp only [Symmetric.get] <;> first | (exact one_div_pos.mpr (by linarith)) | cases diagonal
  have size : 1 / Scalar.sqrt (⟨a, b, c, 0, 0, 0⟩ : Symmetric ℝ).determinant ≠ 0 := by
    have product : (⟨a, b, c, 0, 0, 0⟩ : Symmetric ℝ).determinant = a * b * c := by
      simp [Symmetric.determinant]
    have positive : 0 < a * b * c := by
      have : 0 < a ∧ 0 < b ∧ 0 < c := ⟨by linarith, by linarith, by linarith⟩
      exact mul_pos (mul_pos this.1 this.2.1) this.2.2
    rw [product]
    exact one_div_ne_zero (Real.sqrt_pos.mpr positive).ne'
  refine ⟨raw, readRaw, Coordinates.check_of_constant holds here (fun q member other => ?_) ?_⟩
  · cases q with
    | dx => exact ⟨_, sameX ▸ constantX, fun _ => by rw [one]; exact one_pos, nofun⟩
    | dy => exact ⟨_, sameY ▸ constantY, fun _ => by rw [one]; exact one_pos, nofun⟩
    | contravariant p => exact ⟨_, (sameU.symm ▸ upper p : (raw.contravariant.get p).Constant m _), above p, nofun⟩
    | covariant p => exact ⟨_, (sameL.symm ▸ lowered p : (raw.covariant.get p).Constant m _), below p, nofun⟩
    | jacobian => exact ⟨_, (sameJ.symm ▸ jacobian : raw.jacobian.Constant m _), nofun, fun _ => size⟩
    | bxy => exact absurd rfl other
    | shiftTorsion | intShiftTorsion => exact absurd member (by decide)
    | symbol k p => exact absurd member (by cases k <;> cases p <;> decide)
    | laplacian k => exact absurd member (by cases k <;> decide)
  · rw [sameX, sameB]
    have far := rooted.trans alikeB
    exact .of_extents ((far.extents.trans (lowered .p22).shaped).trans constantX.shaped.symm)
      ((far.loc.trans (lowered .p22).loc).trans constantX.loc.symm) ((far.aligned.trans (lowered .p22).aligned).trans
      constantX.aligned.symm)

end Diagonal

namespace Together

open Transport Program

variable {l : Layout ℝ} {meshes : Nat → Mesh ℝ} {before : Nat → Rank ℝ} {a b c : ℝ}
  (given : ∀ i < l.count, l.Assigns i (meshes i)) (room : ∀ i < l.count, (meshes i).HasRoom)
  (own : ∀ i < l.count, (before i).mesh = meshes i) (moderate : Condition.Moderate a b c)
  (source : ∀ i < l.count, (meshes i).source = .diagonal a b c)
  (kernels : ∀ i < l.count, ∀ axis, ∃ k, (meshes i).kernel axis ⟨.first, false⟩ .standard = .ok k)
include given room own moderate source kernels

/-- All ranks make coordinates at the centres from a diagonal metric. -/
theorem makeCentre_diagonal : ∃ g : Nat → Coordinates ℝ,
    Together l meshes (fun _ => RankM.makeCentre) before fun i => (.ok (g i), before i) := by
  have each (i : Nat) (inside : i < l.count) :=
    Rank.readsDiagonal (given i inside) (room i inside) (own i inside) moderate (source i inside)
  have : Nonempty (Coordinates ℝ) := ⟨(each 0 (Nat.mul_pos l.columns.positive l.rows.positive)).choose⟩
  choose! raw read covers passed using each
  have kept (_ : Coordinates ℝ) (r : Rank ℝ) : Path ((pure () : RankM ℝ Unit).run.run r) [] (.finished (.ok (), r)) := .here _
  obtain ⟨-, -, after, computed, -⟩ := computeGeometry_keeping given room own kept (fun _ _ => rfl) covers passed kernels
  have started : Together l meshes (fun _ => RankM.readMetric) before fun i => (.ok (raw i), before i) :=
    alone fun i inside => read i inside ▸ .here _
  exact ⟨after, started.bind (computed.labelled _)⟩

/-- All ranks find these coordinates when they ask for the first time, and keep them. -/
theorem coordinatesAt_diagonal (unknown : ∀ i < l.count, (before i).coordinatesOf? .centre = none) : ∃ g : Nat → Coordinates ℝ,
    Together l meshes (fun _ => RankM.coordinatesAt (.real .centre)) before
      fun i => (.ok (g i), (before i).keeping (g i)) := by
  obtain ⟨g, made⟩ := makeCentre_diagonal given room own moderate source kernels
  have asked : Together l meshes (fun _ => RankM.knownCoordinates? .centre) before fun i => (.ok none, before i) :=
    alone fun i inside => congrArg (fun o => finished (Except.ok o, before i)) (unknown i inside) ▸ .here _
  have found : Together l meshes (fun _ => RankM.onFirstUse .centre RankM.makeCentre) before
      fun i => (.ok (g i), (before i).keeping (g i)) :=
    asked.bind <| made.bind <| (alone fun i _ => RankM.keepCoordinates_path (g i) (before i)).bind <| alone fun i _ => .here _
  exact ⟨g, found.mapError _⟩

end Together

end HaloMesh
