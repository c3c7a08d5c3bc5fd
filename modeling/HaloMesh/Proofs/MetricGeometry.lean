import HaloMesh.Metric.Geometry
import HaloMesh.Proofs.ExchangeSequence
import HaloMesh.Proofs.GlobalLines
import HaloMesh.Proofs.OptionKeys

/-! The geometry of a metric on all ranks. Its quantities are fields like any others: the ranks fill their guard cells,
check them, and derive from them what a metric that has passed always allows to derive. -/

namespace HaloMesh
open Transport Program

variable {α : Type}

/-! What is read after something has been replaced. -/

namespace Symmetric

variable {β : Type}

theorem get_set (s : Symmetric β) (p p' : Pair) (b : β) : (s.set p b).get p' = if p' = p then b else s.get p' := by
  cases p <;> cases p' <;> rfl

theorem get_ofFunction (f : Pair → β) (p : Pair) : (ofFunction f).get p = f p := by cases p <;> rfl

theorem ofFunctionM_ok {f : Pair → Outcome β} {g : Pair → β} (each : ∀ p, f p = .ok (g p)) :
    ofFunctionM f = .ok (ofFunction g) := by
  simp only [ofFunctionM, each]
  rfl

end Symmetric

theorem Triple.get_set {β : Type} (t : Triple β) (axis axis' : Axis) (b : β) :
    (t.set axis b).get axis' = if axis' = axis then b else t.get axis' := by
  cases axis <;> cases axis' <;> rfl

namespace Coordinates

variable {c : Coordinates α} {qs : List Quantity} {fields : List (Field α)} {q : Quantity}

theorem get_set (c : Coordinates α) (q q' : Quantity) (f : Field α) :
    (c.set q f).get q' = if q' = q then f else c.get q' := by
  cases q with
  | contravariant p | covariant p | laplacian p =>
    cases q' <;> simp only [set, get, Symmetric.get_set, Triple.get_set, Quantity.contravariant.injEq,
      Quantity.covariant.injEq, Quantity.laplacian.injEq, reduceCtorEq, ↓reduceIte]
  | symbol k p =>
    cases q' with
    | symbol k' p' =>
      by_cases same : k' = k
      · subst same
        simp only [set, get, Triple.get_set, Symmetric.get_set, Quantity.symbol.injEq, true_and, ↓reduceIte]
      · simp only [set, get, Triple.get_set, Quantity.symbol.injEq, same, false_and, ↓reduceIte]
    | _ => rfl
  | _ => cases q' <;> rfl

theorem set_tags (c : Coordinates α) (q : Quantity) (f : Field α) : (c.set q f).loc = c.loc ∧ (c.set q f).dz = c.dz := by
  cases q <;> exact ⟨rfl, rfl⟩

theorem setAll_tags (c : Coordinates α) (qs : List Quantity) (fields : List (Field α)) :
    (c.setAll qs fields).loc = c.loc ∧ (c.setAll qs fields).dz = c.dz := by
  induction qs generalizing c fields with
  | nil => exact ⟨rfl, rfl⟩
  | cons q rest ih =>
    cases fields with
    | nil => exact ⟨rfl, rfl⟩
    | cons f later =>
      obtain ⟨loc, dz⟩ := ih (c.set q f) later
      obtain ⟨loc', dz'⟩ := c.set_tags q f
      exact ⟨loc.trans loc', dz.trans dz'⟩

theorem get_setAll_of_notMem (apart : q ∉ qs) : (c.setAll qs fields).get q = c.get q := by
  induction qs generalizing c fields with
  | nil => rfl
  | cons first rest ih =>
    cases fields with
    | nil => rfl
    | cons f later =>
      obtain ⟨other, away⟩ := not_or.mp (mt List.mem_cons.mpr apart)
      refine (ih (c := c.set first f) away).trans ?_
      rw [get_set, if_neg other]

theorem get_setAll (distinct : qs.Nodup) {k : Nat} {f : Field α} (named : qs[k]? = some q) (found : fields[k]? = some f) :
    (c.setAll qs fields).get q = f := by
  induction qs generalizing c fields k with
  | nil => cases named
  | cons first rest ih =>
    cases fields with
    | nil => cases found
    | cons g later =>
      obtain ⟨apart, distinct⟩ := List.nodup_cons.mp distinct
      cases k with
      | zero =>
        obtain rfl : first = q := Option.some.inj named
        obtain rfl : g = f := Option.some.inj found
        refine (get_setAll_of_notMem (c := c.set first g) apart).trans ?_
        rw [get_set, if_pos rfl]
      | succ k => exact ih distinct named found

end Coordinates

namespace Quantity

theorem contravariant_mem (p : Pair) : contravariant p ∈ metric := by cases p <;> decide

theorem covariant_mem (p : Pair) : covariant p ∈ metric := by cases p <;> decide

theorem metric_geometry {q : Quantity} (member : q ∈ metric) : q ∉ geometry := by
  revert q
  decide

end Quantity

theorem Field.Alike.of_extents {f g : Field α} (shaped : g.extents = f.extents) (loc : g.loc = f.loc)
    (aligned : g.aligned = f.aligned) : Alike f g := by
  have sizes := shaped
  simp only [Field.extents, Extents.mk.injEq, Int.natCast_inj] at sizes
  exact ⟨sizes.1, sizes.2.1, sizes.2.2, size_congr shaped, loc, aligned⟩

private theorem forM_congr {ι ε : Type} {check check' : ι → Except ε Unit} {items : List ι}
    (same : ∀ item ∈ items, check item = check' item) : items.forM check = items.forM check' := by
  induction items with
  | nil => rfl
  | cons first rest ih =>
    change (check first >>= fun _ => rest.forM check) = (check' first >>= fun _ => rest.forM check')
    rw [same first List.mem_cons_self, ih fun item later => same item (List.mem_cons_of_mem _ later)]

variable [Scalar α]

namespace Coordinates

variable {c c' : Coordinates α} {m : Mesh α} {aligned : Bool}

omit [Scalar α] in
theorem mem_interior {x y : Int} : (x, y) ∈ ((Index.span m.xstart m.xend).flatMap fun x =>
    (Index.span m.ystart m.yend).map fun y => (x, y)) ↔ m.isInterior x y = true := by
  simp only [List.mem_flatMap, List.mem_map, Index.mem_span, Prod.mk.injEq, Mesh.isInterior, Bool.and_eq_true,
    decide_eq_true_eq]
  constructor
  · intro found
    obtain ⟨_, column, _, row, rfl, rfl⟩ := found
    exact ⟨⟨column, row.1⟩, row.2⟩
  · intro inside
    exact ⟨x, inside.1.1, y, ⟨inside.1.2, inside.2⟩, rfl, rfl⟩

/-- Only the interior is checked. -/
theorem check_congr (same : ∀ q ∈ Quantity.metric, ∀ x y, m.isInterior x y = true → (c'.get q).get x y 0 = (c.get q).get x y 0) :
    c'.check m = c.check m := by
  unfold check
  apply forM_congr
  intro q member
  apply forM_congr
  intro (x, y) inside
  simp only [same q member x y (mem_interior.mp inside)]

theorem sound_of_check (passed : c.check m = .ok ()) {q : Quantity} (member : q ∈ Quantity.metric) {x y : Int} {v : α}
    (inside : m.isInterior x y = true) (found : (c.get q).get x y 0 = .ok v) : defect? q x y v = none := by
  have checked := forM_ok (forM_ok passed member) (mem_interior.mpr inside)
  simp only [found] at checked
  cases defect : defect? q x y v with
  | none => rfl
  | some e =>
    simp only [Bind.bind, Except.bind, defect] at checked
    cases checked

theorem check_of_sound (sound : ∀ q ∈ Quantity.metric, ∀ x y, m.isInterior x y = true →
    ∃ v, (c.get q).get x y 0 = .ok v ∧ defect? q x y v = none) : c.check m = .ok () := by
  have all {ι : Type} {check : ι → Outcome Unit} {items : List ι} (each : ∀ item ∈ items, check item = .ok ()) :
      items.forM check = .ok () := by
    rw [show items.forM check = items.forM fun _ => .ok () from forM_congr each]
    induction items with
    | nil => rfl
    | cons first rest ih => exact ih fun item later => each item (List.mem_cons_of_mem _ later)
  refine all fun q member => all fun (x, y) inside => ?_
  obtain ⟨v, found, clean⟩ := sound q member x y (mem_interior.mp inside)
  simp only [found, Bind.bind, Except.bind, clean]
  rfl

theorem defect?_jacobian {x y : Int} {v : α} (sound : defect? .jacobian x y v = none) : Scalar.same v 0 = false := by
  unfold defect? at sound
  split at sound
  · cases sound
  · split at sound
    · cases sound
    · split at sound
      · cases sound
      next passed => simpa using passed

/-- The quantities of a metric at the cell centres of a block, in one frame. The geometry makes nothing of the strength
of the field, so that may have another one. -/
structure Covers (c : Coordinates α) (m : Mesh α) (aligned : Bool) : Prop where
  loc : c.loc = .centre
  shaped : ∀ q ∈ Quantity.metric, (c.get q).extents = m.extents ∧ (c.get q).loc = .centre
  aligned : ∀ q ∈ Quantity.metric, q ≠ .bxy → (c.get q).aligned = aligned

omit [Scalar α] in
theorem Covers.congr (covers : c.Covers m aligned) (tags : c'.loc = c.loc)
    (alike : ∀ q ∈ Quantity.metric, Field.Alike (c.get q) (c'.get q)) : c'.Covers m aligned := by
  refine ⟨tags.trans covers.loc, fun q member => ?_, fun q member other => ?_⟩
  · exact ⟨(alike q member).extents.trans (covers.shaped q member).1, (alike q member).loc.trans (covers.shaped q member).2⟩
  · exact (alike q member).aligned.trans (covers.aligned q member other)

omit [Scalar α] in
theorem Covers.alike (covers : c.Covers m aligned) {q q' : Quantity} (member : q ∈ Quantity.metric) (other : q ≠ .bxy)
    (member' : q' ∈ Quantity.metric) (other' : q' ≠ .bxy) : Field.Alike (c.get q) (c.get q') := by
  obtain ⟨extents, loc⟩ := covers.shaped q member
  obtain ⟨extents', loc'⟩ := covers.shaped q' member'
  exact .of_extents (extents'.trans extents.symm) (loc'.trans loc.symm)
    ((covers.aligned q' member' other').trans (covers.aligned q member other).symm)

section Geometry

variable (covers : c.Covers m aligned) (fits : ∀ f : Field α, f.extents = m.extents → m.Holds f)
  (kernels : ∀ axis, ∃ k, m.kernel axis ⟨.first, false⟩ .standard = .ok k)
include covers fits kernels

/-- A derivative of any field like the metric, over a spacing. -/
private theorem slope_ok (axis : Axis) {f : Field α} {q : Quantity} (member : q ∈ Quantity.metric)
    (alike : Field.Alike (c.get q) f) : ∃ d, (do
      let r ← m.derivative axis .first f (.real c.loc) .standard false
      r.div (c.get q)) = Except.ok d ∧ Field.Alike (c.get q) d := by
  obtain ⟨extents, loc⟩ := covers.shaped q member
  have holds := fits f (alike.extents.trans extents)
  have here : f.loc = c.loc := (alike.loc.trans loc).trans covers.loc.symm
  obtain ⟨k, made⟩ := kernels axis
  obtain ⟨r, computed, like⟩ : ∃ r, m.derivative axis .first f (.real f.loc) .standard false = .ok r ∧ Field.Alike f r :=
    Mesh.derivative_total holds (m.plan_own axis f.loc) rfl rfl made rfl
  rw [here] at computed
  have whole : Field.Alike (c.get q) r := alike.trans like
  obtain ⟨d, divided, like', -⟩ := Field.combine_alike (whole.fits (fits _ extents).fits) whole.symm "Div" (· / ·)
  exact ⟨d, Outcome.bind_eq_ok.mpr ⟨r, computed, divided⟩, whole.trans like'⟩

theorem metricDerivatives_ok : ∃ d, c.metricDerivatives m = .ok d := by
  have along (axis : Axis) {q : Quantity} (member : q ∈ Quantity.metric) (other : q ≠ .bxy) (p : Pair) :=
    slope_ok covers fits kernels axis member
      (covers.alike member other (Quantity.covariant_mem p) (by simp))
  choose x computedX _ using along .x (q := .dx) (by decide) (by decide)
  choose y computedY _ using along .y (q := .dy) (by decide) (by decide)
  exact ⟨_, Outcome.bind_eq_ok.mpr ⟨_, Symmetric.ofFunctionM_ok computedX,
    Outcome.bind_eq_ok.mpr ⟨_, Symmetric.ofFunctionM_ok computedY, rfl⟩⟩⟩

theorem laplacianAlong_ok (i : Axis) : ∃ f, c.laplacianAlong m i = .ok f ∧ Field.Alike c.jacobian f := by
  have jacobian : Quantity.jacobian ∈ Quantity.metric := by decide
  have holds := fits _ (covers.shaped .jacobian jacobian).1
  have along (axis : Axis) {q : Quantity} (member : q ∈ Quantity.metric) (other : q ≠ .bxy) : ∃ d, (do
      let f ← c.jacobian.mul (c.contravariantAt i axis)
      let r ← m.derivative axis .first f (.real c.loc) .standard false
      r.div (c.get q)) = Except.ok d ∧ Field.Alike c.jacobian d := by
    obtain ⟨f, product, alike, -⟩ := Field.combine_alike holds.fits
      (covers.alike jacobian (by decide) (Quantity.contravariant_mem (.of i axis)) (by simp)) "Mul" (· * ·)
    have like := covers.alike member other jacobian (by decide)
    obtain ⟨d, computed, alike'⟩ := slope_ok covers fits kernels axis member (like.trans alike)
    exact ⟨d, Outcome.bind_eq_ok.mpr ⟨f, product, computed⟩, like.symm.trans alike'⟩
  obtain ⟨x, computedX, alikeX⟩ := along .x (q := .dx) (by decide) (by decide)
  obtain ⟨y, computedY, alikeY⟩ := along .y (q := .dy) (by decide) (by decide)
  obtain ⟨sum, added, alike, -⟩ := Field.combine_alike (alikeX.fits holds.fits) (alikeX.symm.trans alikeY) "Add" (· + ·)
  have whole := alikeX.trans alike
  obtain ⟨f, divided, alike', -⟩ := Field.combine_alike (whole.fits holds.fits) whole.symm "Div" (· / ·)
  exact ⟨f, Outcome.bind_eq_ok.mpr ⟨x, computedX, Outcome.bind_eq_ok.mpr ⟨y, computedY,
    Outcome.bind_eq_ok.mpr ⟨sum, added, divided⟩⟩⟩, whole.trans alike'⟩

/-- Whatever a metric in one frame looks like, its geometry can be derived. The metric itself stays as it is. -/
theorem withGeometry_ok : ∃ c', c.withGeometry m = .ok c' ∧ (c'.loc = c.loc ∧ c'.dz = c.dz) ∧
    (∀ q ∈ Quantity.metric, c'.get q = c.get q) ∧ ∀ q ∈ Quantity.geometry, (c'.get q).extents = m.extents := by
  obtain ⟨d, derived⟩ := metricDerivatives_ok covers fits kernels
  obtain ⟨x, computedX, alikeX⟩ := laplacianAlong_ok covers fits kernels .x
  obtain ⟨y, computedY, alikeY⟩ := laplacianAlong_ok covers fits kernels .y
  obtain ⟨z, computedZ, alikeZ⟩ := laplacianAlong_ok covers fits kernels .z
  refine ⟨_, Outcome.bind_eq_ok.mpr ⟨d, derived, Outcome.bind_eq_ok.mpr ⟨x, computedX, Outcome.bind_eq_ok.mpr
    ⟨y, computedY, Outcome.bind_eq_ok.mpr ⟨z, computedZ, rfl⟩⟩⟩⟩, ⟨rfl, rfl⟩, fun q member => ?_, fun q member => ?_⟩
  · cases q with
    | symbol k p | laplacian k => exact absurd member (by first | (cases k <;> cases p <;> decide) | (cases k <;> decide))
    | _ => rfl
  · have shaped := (covers.shaped .jacobian (by decide)).1
    have tensor : c.contravariant.c11.extents = m.extents := (covers.shaped (.contravariant .p11) (by decide)).1
    cases q with
    | symbol k p =>
      have like (k : Axis) : ((c.symbolsAlong d k).get p).extents = m.extents := by
        rw [symbolsAlong, Symmetric.get_ofFunction]
        exact tensor
      cases k
      · exact like .x
      · exact like .y
      · exact like .z
    | laplacian k =>
      cases k
      · exact alikeX.extents.trans shaped
      · exact alikeY.extents.trans shaped
      · exact alikeZ.extents.trans shaped
    | contravariant p | covariant p => exact absurd member (by cases p <;> decide)
    | _ => exact absurd member (by decide)

end Geometry

end Coordinates

theorem Filled.get_interior {l : Layout α} {meshes : Nat → Mesh α} {before after : Nat → Field α}
    (filled : Filled l.count meshes before after) (given : ∀ i < l.count, l.Assigns i (meshes i))
    (room : ∀ i < l.count, (meshes i).HasRoom) (shaped : ∀ i < l.count, (before i).extents = (meshes i).extents) {i : Nat}
    (inside : i < l.count) {x y : Int} (interior : (meshes i).isInterior x y = true) :
    (after i).get x y 0 = (before i).get x y 0 := by
  have words := Layout.inWords_of_room (given i inside) (room i inside)
  have depth := l.depth
  have has := hasPoint_interior given room shaped inside interior (z := 0) (by omega)
  have alike := filled.alike i inside
  have fits := (Layout.holds (given i inside) (room i inside) (shaped i inside)).fits
  rw [Field.get_eq fits has, Field.get_eq (alike.fits fits) (alike.hasPoint.mpr has),
    value_kept given room shaped filled inside has (Layout.interior_unseamed words (given i inside) interior)]

/-- The rank after it has kept coordinates for their location. -/
def Rank.keeping (r : Rank α) (c : Coordinates α) : Rank α :=
  { r with coordinates := (c.loc, c) :: r.coordinates.filter fun e => e.1 ≠ c.loc }

omit [Scalar α] in
theorem RankM.keepCoordinates_path (c : Coordinates α) (r : Rank α) :
    Path ((keepCoordinates c).run.run r) [] (.finished (.ok (), r.keeping c)) := .here _

/-- A rank has these coordinates at the cell centres. -/
def Rank.Keeps (r : Rank α) (c : Coordinates α) : Prop := r.coordinates.find? (fun e => e.1 = .centre) = some (.centre, c)

namespace Together

variable {l : Layout α} {meshes : Nat → Mesh α} {before : Nat → Rank α}
  (given : ∀ i < l.count, l.Assigns i (meshes i)) (room : ∀ i < l.count, (meshes i).HasRoom)
  (own : ∀ i < l.count, (before i).mesh = meshes i)
include given room own

/-- Some quantities are exchanged, and the others stay as they are. -/
theorem exchangedQuantities (qs : List Quantity) (some_ : qs ≠ []) (distinct : qs.Nodup) {c : Nat → Coordinates α}
    (shaped : ∀ i < l.count, ∀ q ∈ qs, ((c i).get q).extents = (meshes i).extents) :
    ∃ after : Nat → Coordinates α,
      Together l meshes (fun i => RankM.exchangedQuantities qs (c i)) before (fun i => (.ok (after i), before i)) ∧
      (∀ i, (after i).loc = (c i).loc ∧ (after i).dz = (c i).dz) ∧ (∀ i, ∀ q ∉ qs, (after i).get q = (c i).get q) ∧
      ∀ q ∈ qs, Exchanged l meshes (fun i => (c i).get q) fun i => (after i).get q := by
  have ready : Staged l meshes qs.length fun i => qs.map (c i).get := by
    refine ⟨given, room, fun _ _ => List.length_map .., fun i inside f member => ?_⟩
    obtain ⟨q, among, rfl⟩ := List.mem_map.mp member
    exact shaped i inside q among
  let values (i : Nat) := Mesh.afterY meshes (Mesh.afterX meshes fun i => qs.map (c i).get) i
  refine ⟨fun i => (c i).setAll qs (values i), ?_, fun i => (c i).setAll_tags qs (values i),
    fun i q apart => Coordinates.get_setAll_of_notMem apart, fun q member => ?_⟩
  · have sent : Together l meshes (fun i => RankM.exchanged (qs.map (c i).get)) before
        fun i => (.ok (values i), before i) :=
      exchanged ready (mt List.length_eq_zero_iff.mp some_) own
    exact sent.bind (alone fun i _ => .here _)
  · obtain ⟨k, named⟩ := List.getElem?_of_mem member
    refine ready.exchanged (k := k) (fun i _ => by rw [List.getElem?_map, named]; rfl) fun i inside => ?_
    have long : (values i).length = qs.length := (ready.afterX.phase_lines inside _).1
    have within : k < (values i).length := by
      rw [long]
      exact (List.getElem?_eq_some_iff.mp named).1
    rw [Coordinates.get_setAll distinct named (List.getElem?_eq_getElem within)]
    exact List.getElem?_eq_getElem within

/-- The geometry of a metric that passes its check comes about on all ranks, which keep each step of it in some way. The guard
cells of the metric are filled. -/
theorem computeGeometry_keeping {c : Nat → Coordinates α} {aligned : Bool} {keep : Coordinates α → RankM α Unit}
    {kept : Rank α → Coordinates α → Rank α} (keeps : ∀ c r, Path ((keep c).run.run r) [] (.finished (.ok (), kept r c)))
    (still : ∀ r c, (kept r c).mesh = r.mesh) (covers : ∀ i < l.count, (c i).Covers (meshes i) aligned)
    (passed : ∀ i < l.count, (c i).check (meshes i) = .ok ())
    (kernels : ∀ i < l.count, ∀ axis, ∃ k, (meshes i).kernel axis ⟨.first, false⟩ .standard = .ok k) :
    ∃ first second after : Nat → Coordinates α,
      Together l meshes (fun i => RankM.computeGeometry keep (c i)) before
        (fun i => (.ok (after i), kept (kept (kept (before i) (first i)) (second i)) (after i))) ∧
      (∀ i < l.count, (after i).Covers (meshes i) aligned ∧ (after i).dz = (c i).dz) ∧
      ∀ q ∈ Quantity.metric, Filled l.count meshes (fun i => (c i).get q) fun i => (after i).get q := by
  have shaped (i : Nat) (inside : i < l.count) (q : Quantity) (member : q ∈ Quantity.metric) :=
    ((covers i inside).shaped q member).1
  have fits (i : Nat) (inside : i < l.count) (f : Field α) (shaped : f.extents = (meshes i).extents) :
      (meshes i).Holds f := Layout.holds (given i inside) (room i inside) shaped
  obtain ⟨first, exchanged, tags, -, refilled⟩ := exchangedQuantities given room own Quantity.metric (by decide) (by decide)
    shaped
  have filled (q : Quantity) (member : q ∈ Quantity.metric) :=
    (refilled q member).filled given room fun i inside => shaped i inside q member
  have covers' (i : Nat) (inside : i < l.count) : (first i).Covers (meshes i) aligned :=
    (covers i inside).congr (tags i).1 fun q member => (filled q member).alike i inside
  have passed' (i : Nat) (inside : i < l.count) : (first i).check (meshes i) = .ok () := by
    rw [← passed i inside]
    apply Coordinates.check_congr
    intro q member x y interior
    exact (filled q member).get_interior given room (fun j within => shaped j within q member) inside interior
  have derived (i : Nat) : ∃ c', (c'.loc = (first i).loc ∧ c'.dz = (first i).dz) ∧
      (∀ q ∈ Quantity.metric, c'.get q = (first i).get q) ∧ (i < l.count → (first i).withGeometry (meshes i) = .ok c' ∧
        ∀ q ∈ Quantity.geometry, (c'.get q).extents = (meshes i).extents) := by
    by_cases inside : i < l.count
    · obtain ⟨c', made, tags, same, shaped⟩ :=
        Coordinates.withGeometry_ok (covers' i inside) (fits i inside) (kernels i inside)
      exact ⟨c', tags, same, fun _ => ⟨made, shaped⟩⟩
    · exact ⟨first i, ⟨rfl, rfl⟩, fun _ _ => rfl, fun within => absurd within inside⟩
  choose second tagged unchanged made using derived
  let middle (i : Nat) : Rank α := kept (kept (before i) (first i)) (second i)
  obtain ⟨third, exchanged', tags', others, -⟩ := exchangedQuantities given room
    (show ∀ i < l.count, (middle i).mesh = meshes i from fun i inside =>
      ((still _ _).trans (still _ _)).trans (own i inside)) Quantity.geometry (by decide) (by decide) (c := second)
    fun i inside => (made i inside).2
  have same (i : Nat) (q : Quantity) (member : q ∈ Quantity.metric) : (third i).get q = (first i).get q :=
    (others i q (Quantity.metric_geometry member)).trans (unchanged i q member)
  have located (i : Nat) : (third i).loc = (first i).loc := (tags' i).1.trans (tagged i).1
  refine ⟨first, second, third, ?_, fun i inside => ⟨?_, ((tags' i).2.trans (tagged i).2).trans (tags i).2⟩,
    fun q member => ?_⟩
  · have read : Together l meshes (fun _ => (RankM.mesh : RankM α (Mesh α))) before fun i => (.ok (meshes i), before i) :=
      alone fun i inside => own i inside ▸ .here _
    have keep (c : Nat → Coordinates α) (ranks : Nat → Rank α) :
        Together l meshes (fun i => keep (c i)) ranks fun i => (.ok (), kept (ranks i) (c i)) :=
      alone fun i _ => keeps (c i) (ranks i)
    have checked : Together l meshes (fun i => RankM.ofOutcome ((first i).check (meshes i)))
        (fun i => kept (before i) (first i)) fun i => (.ok (), kept (before i) (first i)) :=
      alone fun i inside => RankM.ofOutcome_path (passed' i inside) _
    have computed : Together l meshes (fun i => RankM.ofOutcome ((first i).withGeometry (meshes i)))
        (fun i => kept (before i) (first i)) fun i => (.ok (second i), kept (before i) (first i)) :=
      alone fun i inside => RankM.ofOutcome_path (made i inside).1 _
    exact read.bind <| (exchanged.labelled _).bind <| (keep first before).bind <| checked.bind <| computed.bind <|
      (keep second _).bind <| (exchanged'.labelled _).bind <| (keep third _).bind <| alone fun i _ => .here _
  · exact (covers' i inside).congr (located i) fun q member => by
      rw [same i q member]
      exact .refl _
  · rw [show (fun i => (third i).get q) = fun i => (first i).get q from funext fun i => same i q member]
    exact filled q member

/-- The geometry of a metric that passes its check comes about on all ranks, which keep it with the metric it belongs
to. The guard cells of the metric are filled. -/
theorem computeGeometry {c : Nat → Coordinates α} {aligned : Bool}
    (covers : ∀ i < l.count, (c i).Covers (meshes i) aligned) (passed : ∀ i < l.count, (c i).check (meshes i) = .ok ())
    (kernels : ∀ i < l.count, ∀ axis, ∃ k, (meshes i).kernel axis ⟨.first, false⟩ .standard = .ok k) :
    ∃ (after : Nat → Coordinates α) (ranks : Nat → Rank α),
      Together l meshes (fun i => RankM.computeGeometry RankM.keepCoordinates (c i)) before
        (fun i => (.ok (after i), ranks i)) ∧
      (∀ i < l.count, (ranks i).mesh = meshes i ∧ (ranks i).transform = (before i).transform ∧ (ranks i).Keeps (after i)) ∧
      (∀ i < l.count, (after i).Covers (meshes i) aligned ∧ (after i).dz = (c i).dz) ∧
      ∀ q ∈ Quantity.metric, Filled l.count meshes (fun i => (c i).get q) fun i => (after i).get q := by
  obtain ⟨first, second, after, made, covers', filled⟩ :=
    computeGeometry_keeping given room own RankM.keepCoordinates_path (fun _ _ => rfl) covers passed kernels
  refine ⟨after, _, made, fun i inside => ⟨own i inside, rfl, ?_⟩, covers', filled⟩
  simp [Rank.Keeps, Rank.keeping, (covers' i inside).1.loc]

end Together

end HaloMesh
