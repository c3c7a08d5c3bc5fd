import Mathlib.Analysis.Real.Sqrt
import HaloMesh.Proofs.AlikeFields
import HaloMesh.Proofs.DefaultDerivatives
import HaloMesh.Proofs.RankOutcomes
import HaloMesh.Proofs.StagedValues
import HaloMesh.Proofs.VectorIdentities

/-! The symbols of a metric and its derivatives. Raising an index of the first kind and lowering it again changes nothing, so
that every derivative of the metric is a sum of two symbols, however the metric varies and whatever the other ranks send
while the geometry is computed. -/

namespace HaloMesh
open Transport Program

instance : Fintype Axis := ⟨{.x, .y, .z}, fun a => by cases a <;> decide⟩

theorem Axis.sum_eq {β : Type} [AddCommMonoid β] (f : Axis → β) : ∑ a, f a = f .x + f .y + f .z := by
  have all : (Finset.univ : Finset Axis) = {.x, .y, .z} := rfl
  rw [all, Finset.sum_insert (by decide), Finset.sum_insert (by decide), Finset.sum_singleton, add_assoc]

theorem Pair.of_comm (i j : Axis) : Pair.of i j = Pair.of j i := by cases i <;> cases j <;> rfl

theorem Quantity.symbol_mem (k : Axis) (p : Pair) : symbol k p ∈ geometry := by cases k <;> cases p <;> decide

theorem Pair.ofIndices?_index (i j : Axis) : Pair.ofIndices? i.index j.index = some (.of i j) := by
  cases i <;> cases j <;> decide

theorem Symmetric.ofFunctionM_get {β : Type} {f : Pair → Outcome β} {s : Symmetric β} (taken : ofFunctionM f = .ok s)
    (p : Pair) : f p = .ok (s.get p) := by
  obtain ⟨c11, first, taken⟩ := Outcome.bind_eq_ok.mp taken
  obtain ⟨c22, second, taken⟩ := Outcome.bind_eq_ok.mp taken
  obtain ⟨c33, third, taken⟩ := Outcome.bind_eq_ok.mp taken
  obtain ⟨c12, fourth, taken⟩ := Outcome.bind_eq_ok.mp taken
  obtain ⟨c13, fifth, taken⟩ := Outcome.bind_eq_ok.mp taken
  obtain ⟨c23, sixth, taken⟩ := Outcome.bind_eq_ok.mp taken
  cases taken
  cases p <;> assumption

/-! Symbols at one point. -/

section Point

variable {g h : Axis → Axis → ℝ} {d : Axis → Pair → ℝ}

theorem symbolValue_eq (row : Axis → ℝ) (d : Axis → Pair → ℝ) (i j : Axis) :
    symbolValue row d i j = ∑ l, 1 / 2 * row l * (d i (.of l j) + d j (.of l i) - d l (.of i j)) := by
  rw [symbolValue, Exact.half_eq, Exact.foldl_add fun l => 1 / 2 * row l * (d i (.of l j) + d j (.of l i) - d l (.of i j)),
    Axis.sum_eq, Exact.zero_eq]
  simp only [Axis.all, List.map_cons, List.map_nil, List.sum_cons, List.sum_nil]
  ring

theorem symbolValue_comm (row : Axis → ℝ) (d : Axis → Pair → ℝ) (i j : Axis) :
    symbolValue row d i j = symbolValue row d j i := by
  rw [symbolValue_eq, symbolValue_eq]
  refine Finset.sum_congr rfl fun l _ => ?_
  rw [Pair.of_comm j i, add_comm (d j _)]

theorem symbolValue_axes (row : Axis → ℝ) (d : Axis → Pair → ℝ) (i j : Axis) :
    symbolValue row d (Pair.of i j).axes.1 (Pair.of i j).axes.2 = symbolValue row d i j := by
  cases i <;> cases j <;> first | rfl | exact symbolValue_comm ..

/-- Lowering the upper index gives back the symbol of the first kind. -/
theorem sum_symbolValue_mul (dual : ∀ p k, ∑ l, g l p * h l k = if p = k then 1 else 0) (i j k : Axis) :
    ∑ l, symbolValue (g l) d i j * h l k = 1 / 2 * (d i (.of k j) + d j (.of k i) - d k (.of i j)) := by
  let first (p : Axis) := 1 / 2 * (d i (.of p j) + d j (.of p i) - d p (.of i j))
  calc ∑ l, symbolValue (g l) d i j * h l k
      = ∑ l, ∑ p, first p * (g l p * h l k) := by
        refine Finset.sum_congr rfl fun l _ => ?_
        rw [symbolValue_eq, Finset.sum_mul]
        exact Finset.sum_congr rfl fun p _ => by simp only [first]; ring
    _ = ∑ p, first p * ∑ l, g l p * h l k := by
        rw [Finset.sum_comm]
        exact Finset.sum_congr rfl fun p _ => (Finset.mul_sum ..).symm
    _ = first k := by simp only [dual, mul_ite, mul_one, mul_zero, Finset.sum_ite_eq', Finset.mem_univ, if_true]

theorem derivative_eq_symbols (dual : ∀ p k, ∑ l, g l p * h l k = if p = k then 1 else 0) (i j k : Axis) :
    d i (.of j k) = ∑ l, (symbolValue (g l) d i j * h l k + symbolValue (g l) d i k * h l j) := by
  rw [Finset.sum_add_distrib, sum_symbolValue_mul dual, sum_symbolValue_mul dual, Pair.of_comm k j, Pair.of_comm k i,
    Pair.of_comm j i]
  ring

end Point

variable {α : Type} [Scalar α]

/-- What an exchange makes of a field over a block, as far as one rank can tell: guard cells may have changed. -/
structure Field.Refilled (m : Mesh α) (f g : Field α) : Prop where
  shaped : f.extents = m.extents
  alike : Field.Alike f g
  kept : ∀ x y z, f.HasPoint x y z → ¬ m.Seam x y → g.value x y z = f.value x y z

namespace RankM

variable {l : Layout α} {i : Nat} {m : Mesh α} (given : l.Assigns i m) (room : m.HasRoom)
include given room

omit given room [Scalar α] in
theorem leads_talk_always {β : Type} {P : Rank α → Prop} {Q : β → Prop} {p : Program (Array α) β} (always : p.Always Q) :
    Leads P (talk p) fun b r => P r ∧ Q b := by
  intro r holds
  change ((p.bind fun b => finished (b, r)).bind fun told => finished (Except.ok told.1, told.2)).Always _
  rw [bind_bind]
  refine always.bind fun b known b' found => ?_
  obtain rfl := Except.ok.inj found
  exact ⟨holds, known⟩

omit given room [Scalar α] in
theorem leads_own_mesh : Leads (fun r => r.mesh = m) mesh fun m' r => r.mesh = m ∧ m' = m :=
  fun _ own _ found => ⟨own, (Except.ok.inj found).symm.trans own⟩

/-- The ranks across may send what they like. -/
theorem leads_exchanged (fields : List (Field α)) : Leads (fun r => r.mesh = m) (exchanged fields)
    fun result r => r.mesh = m ∧ ∀ (k : Nat) f, fields[k]? = some f → ∃ g, result[k]? = some g ∧ f.Refilled m g := by
  have talks : (m.exchange fields false).Always fun answered => ∀ result, answered = .ok result →
      ∀ (k : Nat) f, fields[k]? = some f → ∃ g, result[k]? = some g ∧ f.Refilled m g := by
    refine Always.of_path fun events answered path result ended k f found => ?_
    subst ended
    obtain ⟨first, second, started, -, path, rest⟩ := path.of_bind_finished
    cases started with
    | error e => cases rest
    | ok ex =>
      obtain ⟨shaped, g, left, alike, kept⟩ := Mesh.exchange_keeps given room path rest k f found
      have fits := (Layout.holds given room shaped).fits
      exact ⟨g, left, shaped, alike, fun x y z has unseamed =>
        Field.value_of_line fits (alike.fits fits) has (alike.hasPoint.mpr has) (kept x y has.1 unseamed)⟩
  refine Leads.bind leads_own_mesh fun m' => Leads.of_fact fun same => ?_
  subst same
  refine (leads_talk_always talks).bind fun answered => leads_ofOutcome fun r result known taken => ⟨known.1, ?_⟩
  cases answered with
  | error e => cases taken
  | ok result' =>
    cases taken
    exact known.2 result rfl

/-- Quantities that are exchanged keep their values outside the seams, and the others all of them. -/
theorem leads_refilled (qs : List Quantity) (distinct : qs.Nodup) (c : Coordinates α) :
    Leads (fun r => r.mesh = m) (exchangedQuantities qs c) fun c' r => r.mesh = m ∧ c'.loc = c.loc ∧
      (∀ q ∉ qs, c'.get q = c.get q) ∧ ∀ q ∈ qs, (c.get q).Refilled m (c'.get q) := by
  refine (leads_exchanged given room (qs.map c.get)).bind fun fields => leads_pure fun r known => ⟨known.1, ?_⟩
  refine ⟨(c.setAll_tags qs fields).1, fun q apart => Coordinates.get_setAll_of_notMem apart, fun q member => ?_⟩
  obtain ⟨k, named⟩ := List.getElem?_of_mem member
  obtain ⟨g, found, refilled⟩ := known.2 k (c.get q) (by rw [List.getElem?_map, named]; rfl)
  rw [Coordinates.get_setAll distinct named found]
  exact refilled

end RankM

namespace Coordinates

variable {c c' : Coordinates α} {m : Mesh α} {d : Triple (Symmetric (Field α))}

/-- The derivative of a component of the covariant metric: that in index units over the spacing, and none along z. -/
def metricSlope (c : Coordinates α) (m : Mesh α) (axis : Axis) (p : Pair) : Outcome (Field α) :=
  match axis with
  | .x => do (← m.derivative .x .first (c.covariant.get p) (.real c.loc) .standard false).div c.dx
  | .y => do (← m.derivative .y .first (c.covariant.get p) (.real c.loc) .standard false).div c.dy
  | .z => .ok (c.covariant.get p).zeroLike

theorem metricSlope_of_derivatives (derived : c.metricDerivatives m = .ok d) (axis : Axis) (p : Pair) :
    c.metricSlope m axis p = .ok ((d.get axis).get p) := by
  obtain ⟨x, alongX, derived⟩ := Outcome.bind_eq_ok.mp derived
  obtain ⟨y, alongY, derived⟩ := Outcome.bind_eq_ok.mp derived
  cases derived
  cases axis with
  | x => exact Symmetric.ofFunctionM_get alongX p
  | y => exact Symmetric.ofFunctionM_get alongY p
  | z => exact congrArg Except.ok (Symmetric.get_ofFunction (fun p => (c.covariant.get p).zeroLike) p).symm

theorem metricSlope_extents {axis : Axis} {p : Pair} {f : Field α} (taken : c.metricSlope m axis p = .ok f) :
    f.extents = (c.covariant.get p).extents := by
  have along {axis : Axis} {h : Field α} (taken : (do
      (← m.derivative axis .first (c.covariant.get p) (.real c.loc) .standard false).div h) = .ok f) :
      f.extents = (c.covariant.get p).extents := by
    obtain ⟨r, derived, divided⟩ := Outcome.bind_eq_ok.mp taken
    exact (Field.combine_ok divided).1.extents.trans (Mesh.derivative_alike derived).extents
  cases axis with
  | x => exact along taken
  | y => exact along taken
  | z =>
    cases taken
    exact (Field.alike_zeroLike _).extents

/-- The derivatives of a metric depend on its covariant components and the spacings. -/
theorem metricDerivatives_congr (loc : c'.loc = c.loc) (same : ∀ q ∈ Quantity.metric, c'.get q = c.get q) :
    c'.metricDerivatives m = c.metricDerivatives m := by
  have dx : c'.dx = c.dx := same .dx (by decide)
  have dy : c'.dy = c.dy := same .dy (by decide)
  have covariant (p : Pair) : c'.covariant.get p = c.covariant.get p := same (.covariant p) (Quantity.covariant_mem p)
  simp only [metricDerivatives, loc, dx, dy, covariant]

theorem withGeometry_get (made : c.withGeometry m = .ok c') : ∃ d, c.metricDerivatives m = .ok d ∧
    (∀ q ∈ Quantity.metric, c'.get q = c.get q) ∧ ∀ k p, c'.get (.symbol k p) = (c.symbolsAlong d k).get p := by
  obtain ⟨d, derived, made⟩ := Outcome.bind_eq_ok.mp made
  obtain ⟨_, -, made⟩ := Outcome.bind_eq_ok.mp made
  obtain ⟨_, -, made⟩ := Outcome.bind_eq_ok.mp made
  obtain ⟨_, -, made⟩ := Outcome.bind_eq_ok.mp made
  cases made
  refine ⟨d, derived, fun q member => ?_, fun k p => by cases k <;> rfl⟩
  cases q with
  | symbol k p => exact absurd member (by cases k <;> cases p <;> decide)
  | laplacian k => exact absurd member (by cases k <;> decide)
  | _ => rfl

end Coordinates

namespace Field

variable {f g : Field α} {x y z : Int}

omit [Scalar α] in
theorem place_congr (same : g.extents = f.extents) : g.place x y z = f.place x y z := by
  obtain ⟨-, ny, nz⟩ := sizes_congr same
  rw [place, place, ny, nz]

/-- Fields over one block have their values at a point at the same index. -/
theorem valueAt_place (same : g.extents = f.extents) : g.valueAt (f.place x y z).toNat = g.value x y z := by
  rw [value, place_congr same]
  rfl

theorem value_tabulate (fits : f.Fits) (has : f.HasPoint x y z) (h : Nat → α) :
    (f.tabulate h).value x y z = h (f.place x y z).toNat := by
  obtain ⟨low, high⟩ := place_range fits has
  have inside : (f.place x y z).toNat < f.data.size := by omega
  change ((Array.ofFn fun n : Fin f.data.size => h n)[(f.place x y z).toNat]?).getD 0 = _
  rw [Array.getElem?_eq_getElem (by rwa [Array.size_ofFn]), Array.getElem_ofFn]
  rfl

end Field

namespace Coordinates

variable {c c' : Coordinates α} {m : Mesh α} {d : Triple (Symmetric (Field α))}

/-- The value of a symbol at a point comes from the metric at this point and its derivatives there. -/
theorem symbolsAlong_value (fits : ∀ f : Field α, f.extents = m.extents → f.Fits)
    (shaped : ∀ q ∈ Quantity.metric, (c.get q).extents = m.extents) (derived : c.metricDerivatives m = .ok d) (k i j : Axis)
    {x y z : Int} (has : c.contravariant.c11.HasPoint x y z) : ((c.symbolsAlong d k).get (.of i j)).value x y z =
      symbolValue (fun l => (c.contravariantAt k l).value x y z) (fun axis p => ((d.get axis).get p).value x y z)
        (Pair.of i j).axes.1 (Pair.of i j).axes.2 := by
  have block : c.contravariant.c11.extents = m.extents := shaped (.contravariant .p11) (by decide)
  have upper (l : Axis) : (c.contravariantAt k l).extents = c.contravariant.c11.extents :=
    (shaped (.contravariant (.of k l)) (Quantity.contravariant_mem _)).trans block.symm
  have slopes (axis : Axis) (p : Pair) : ((d.get axis).get p).extents = c.contravariant.c11.extents :=
    ((metricSlope_extents (metricSlope_of_derivatives derived axis p)).trans
      (shaped (.covariant p) (Quantity.covariant_mem p))).trans block.symm
  rw [symbolsAlong, Symmetric.get_ofFunction, Field.value_tabulate (fits _ block) has]
  simp only [Field.valueAt_place (upper _), Field.valueAt_place (slopes _ _)]

end Coordinates

/-- The two metrics of coordinates are inverse to each other at a point. -/
def Coordinates.DualAt (c : Coordinates ℝ) (x y z : Int) : Prop :=
  ∀ i k, ∑ l, (c.contravariantAt i l).value x y z * (c.covariantAt l k).value x y z = if i = k then 1 else 0

/-- The symbols of coordinates make up these derivatives of their metric at a point. -/
def Coordinates.CompatibleAt (c : Coordinates ℝ) (d : Triple (Symmetric (Field ℝ))) (x y z : Int) : Prop :=
  ∀ i j k, ((d.get i).get (.of j k)).value x y z = ∑ l,
    ((c.symbolAt l i j).value x y z * (c.covariantAt l k).value x y z +
      (c.symbolAt l i k).value x y z * (c.covariantAt l j).value x y z)

/-- The symbols of coordinates make up the derivatives of their metric in the whole interior of a block. -/
def Coordinates.Compatible (c : Coordinates ℝ) (m : Mesh ℝ) : Prop :=
  ∃ d, c.metricDerivatives m = .ok d ∧
    ∀ x y z, m.isInterior x y = true → 0 ≤ z → z < m.localNz → c.CompatibleAt d x y z

namespace RankM

variable {l : Layout ℝ} {i : Nat} {m : Mesh ℝ} {keep : Coordinates ℝ → RankM ℝ Unit}

/-- The symbols that follow from a metric make up its derivatives, also after both have been exchanged. -/
theorem compatible_of_refilled (given : l.Assigns i m) (room : m.HasRoom) {c first second third : Coordinates ℝ}
    (filled : ∀ q ∈ Quantity.metric, (c.get q).Refilled m (first.get q)) (made : first.withGeometry m = .ok second)
    (others : third.loc = second.loc ∧ ∀ q ∉ Quantity.geometry, third.get q = second.get q)
    (filled' : ∀ q ∈ Quantity.geometry, (second.get q).Refilled m (third.get q)) : ∃ d, third.metricDerivatives m = .ok d ∧
      ∀ x y z, m.isInterior x y = true → 0 ≤ z → z < m.localNz → c.DualAt x y z → third.CompatibleAt d x y z := by
  obtain ⟨d, derived, still, symbols⟩ := Coordinates.withGeometry_get made
  have same (q : Quantity) (member : q ∈ Quantity.metric) : third.get q = first.get q :=
    (others.2 q (Quantity.metric_geometry member)).trans (still q member)
  have shaped (q : Quantity) (member : q ∈ Quantity.metric) : (first.get q).extents = m.extents :=
    (filled q member).alike.extents.trans (filled q member).shaped
  have fits (f : Field ℝ) (block : f.extents = m.extents) : m.Holds f := Layout.holds given room block
  refine ⟨d, ?_, fun x y z interior low high dual i j k => ?_⟩
  · rw [Coordinates.metricDerivatives_congr (others.1.trans (withGeometry_loc made)) same, derived]
  have unseamed := Layout.interior_unseamed (Layout.inWords_of_room given room) given interior
  have has (f : Field ℝ) (block : f.extents = m.extents) : f.HasPoint x y z :=
    ((fits f block).interior_point interior low high).1
  have kept (q : Quantity) (member : q ∈ Quantity.metric) : (first.get q).value x y z = (c.get q).value x y z :=
    (filled q member).kept x y z (has _ (filled q member).shaped) unseamed
  have upper (i k : Axis) : (first.contravariantAt i k).value x y z = (c.contravariantAt i k).value x y z :=
    kept (.contravariant (.of i k)) (Quantity.contravariant_mem _)
  have lower (i k : Axis) : (first.covariantAt i k).value x y z = (c.covariantAt i k).value x y z :=
    kept (.covariant (.of i k)) (Quantity.covariant_mem _)
  have dual' : ∀ p k, ∑ l, (first.contravariantAt l p).value x y z * (first.covariantAt l k).value x y z =
      if p = k then 1 else 0 := by
    intro p k
    rw [← dual p k]
    exact Finset.sum_congr rfl fun l _ => by rw [lower, show first.contravariantAt l p = first.contravariantAt p l from
      congrArg first.contravariant.get (Pair.of_comm l p), upper]
  have covariant (i k : Axis) : third.covariantAt i k = first.covariantAt i k :=
    same (.covariant (.of i k)) (Quantity.covariant_mem _)
  have symbol (k i j : Axis) : (third.symbolAt k i j).value x y z = symbolValue
      (fun l => (first.contravariantAt k l).value x y z) (fun axis p => ((d.get axis).get p).value x y z) i j := by
    have refilled := filled' (.symbol k (.of i j)) (Quantity.symbol_mem k _)
    have point := has _ (shaped (.contravariant .p11) (by decide))
    have value : (third.symbolAt k i j).value x y z = (second.get (.symbol k (.of i j))).value x y z :=
      refilled.kept x y z (has _ refilled.shaped) unseamed
    rw [value, symbols, Coordinates.symbolsAlong_value (fun f block => (fits f block).fits) shaped derived k i j point,
      symbolValue_axes]
  simp only [symbol, covariant]
  exact derivative_eq_symbols (d := fun axis p => ((d.get axis).get p).value x y z) dual' i j k

theorem leads_compatible (given : l.Assigns i m) (room : m.HasRoom)
    (keeps : ∀ c, Leads (fun r => r.mesh = m) (keep c) fun _ r => r.mesh = m) (c : Coordinates ℝ) :
    Leads (fun r => r.mesh = m) (computeGeometry keep c) fun c' _ => ∃ d, c'.metricDerivatives m = .ok d ∧
      ∀ x y z, m.isInterior x y = true → 0 ≤ z → z < m.localNz → c.DualAt x y z → c'.CompatibleAt d x y z := by
  unfold computeGeometry
  refine Leads.bind leads_own_mesh fun m' => Leads.of_fact fun same => ?_
  subst same
  refine Leads.bind ((leads_refilled given room _ (by decide) c).labelled _) fun first => Leads.of_fact fun filled => ?_
  refine Leads.bind (keeps first) fun _ => ?_
  refine Leads.bind (Q := fun _ r => r.mesh = m') (leads_ofOutcome fun _ _ own _ => own) fun _ => ?_
  refine Leads.bind (leads_ofOutcome fun _ _ own made => And.intro own made) fun second => Leads.of_fact fun made => ?_
  refine Leads.bind (keeps second) fun _ => ?_
  refine Leads.bind ((leads_refilled given room _ (by decide) second).labelled _) fun third => Leads.of_fact fun filled' => ?_
  refine Leads.bind (keeps third) fun _ => leads_pure fun r _ => ?_
  exact compatible_of_refilled given room filled.2.2 made ⟨filled'.1, filled'.2.1⟩ filled'.2.2

end RankM

/-- Whatever the other ranks send, the symbols of the geometry are symmetric in their lower indices and make up the derivatives
of the metric at every interior point where the two metrics are inverse to each other. -/
theorem christoffel_symbols_compatible (source : GridSource ℝ) {options : Options ℝ} {i count : Nat} {m : Mesh ℝ}
    {messages : List String} (inside : i < count) (loaded : Mesh.load source options ⟨i, count⟩ = .ok (m, messages))
    (room : m.HasRoom) {keep : Coordinates ℝ → RankM ℝ Unit}
    (keeps : ∀ c, RankM.Leads (fun r => r.mesh = m) (keep c) fun _ r => r.mesh = m) (c : Coordinates ℝ) :
    RankM.Leads (fun r => r.mesh = m) (RankM.computeGeometry keep c) fun c' _ =>
      (∃ d, c'.metricDerivatives m = .ok d ∧ ∀ i j k, c'.metricSlope m i (.of j k) = .ok ((d.get i).get (.of j k)) ∧
        ∀ x y z, m.isInterior x y = true → 0 ≤ z → z < m.localNz → c.DualAt x y z →
          ((d.get i).get (.of j k)).value x y z = ∑ l,
            ((c'.symbolAt l i j).value x y z * (c'.covariantAt l k).value x y z +
              (c'.symbolAt l i k).value x y z * (c'.covariantAt l j).value x y z)) ∧
      ∀ k i j : Axis, c'.symbolAtIndices? k.index i.index j.index = some (c'.symbolAt k i j) ∧
        c'.symbolAt k i j = c'.symbolAt k j i := by
  obtain ⟨l, rfl, given⟩ := Layout.of_load loaded
  refine (RankM.leads_compatible (given i inside m messages loaded) room keeps c).weaken
    fun c' r found => ⟨?_, fun k i j => ?_⟩
  · obtain ⟨d, derived, compatible⟩ := found
    exact ⟨d, derived, fun i j k => ⟨Coordinates.metricSlope_of_derivatives derived i (.of j k),
      fun x y z interior low high dual => compatible x y z interior low high dual i j k⟩⟩
  · refine ⟨?_, congrArg (c'.symbols.get k).get (Pair.of_comm i j)⟩
    rw [Coordinates.symbolAtIndices?, Pair.ofIndices?_index]
    cases k <;> rfl

/-! A metric that is not diagonal and varies along x. -/

noncomputable def shearMetric (q : Quantity) (column : Int) : ℝ :=
  match q with
  | .covariant .p11 => column ^ 2 + 1
  | .contravariant .p22 => column ^ 2 + 1
  | .covariant .p12 => column
  | .contravariant .p12 => -column
  | .jacobian => 1
  | _ => if q.isPositive then 1 else 0

theorem shearMetric_sound (q : Quantity) (x y column : Int) :
    Coordinates.defect? q x y (shearMetric q column) = none := by
  have square : (0 : ℝ) ≤ (column : ℝ) ^ 2 := sq_nonneg _
  refine Coordinates.defect?_none (fun positive => ?_) fun jacobian => ?_
  · unfold shearMetric
    split
    · linarith
    · linarith
    · cases positive
    · cases positive
    · norm_num
    · rw [if_pos positive]
      norm_num
  · rw [jacobian]
    exact one_ne_zero

theorem shearMetric_dual (i k : Axis) (column : Int) : ∑ l, shearMetric (.contravariant (.of i l)) column *
    shearMetric (.covariant (.of l k)) column = if i = k then 1 else 0 := by
  rw [Axis.sum_eq]
  cases i <;> cases k <;> simp [shearMetric, Pair.of, Quantity.isPositive, Pair.isDiagonal] <;> ring

theorem christoffel_symbols_compatible_shear : ∃ (m : Mesh ℝ) (c c' : Coordinates ℝ) (r : Rank ℝ)
    (events : List (Event (Array ℝ))) (d : Triple (Symmetric (Field ℝ))),
    Mesh.load GridSource.empty staggeredOptions ⟨0, 1⟩ = .ok (m, []) ∧
      Path ((RankM.computeGeometry RankM.keepCoordinates c).run.run (Rank.ofMesh m [])) events (.finished (.ok c', r)) ∧
      c'.metricDerivatives m = .ok d ∧ ∀ x y z, m.isInterior x y = true → 0 ≤ z → z < m.localNz →
        ((c.covariantAt .x .y).value x y z = m.globalX x ∧ c.DualAt x y z) ∧ ∀ i j k,
          ((d.get i).get (.of j k)).value x y z = ∑ l,
            ((c'.symbolAt l i j).value x y z * (c'.covariantAt l k).value x y z +
              (c'.symbolAt l i k).value x y z * (c'.covariantAt l j).value x y z) := by
  obtain ⟨m, loaded, room, -, -⟩ := load_staggered
  obtain ⟨l, count, assigned⟩ := Layout.of_load loaded
  have single : l.count = 1 := count
  have given : l.Assigns 0 m := assigned 0 (by decide) m [] loaded
  have field := Layout.exists_field given room .centre false
  choose make shaped loc frame values using field
  let quantity (q : Quantity) : Field ℝ := make fun column _ _ => shearMetric q column
  let c : Coordinates ℝ := .ofQuantities .centre 1 quantity
  have own (q : Quantity) : c.get q = quantity q := Coordinates.get_ofQuantities ..
  have holds (q : Quantity) : m.Holds (quantity q) := Layout.holds given room (shaped _)
  have known (q : Quantity) {x y z : Int} (interior : m.isInterior x y = true) (low : 0 ≤ z) (high : z < m.localNz) :
      (c.get q).value x y z = shearMetric q (m.globalX x) := by
    rw [own]
    exact values _ x y z ((holds q).interior_point interior low high).1
  have covers : c.Covers m false := by
    refine ⟨rfl, fun q _ => ?_, fun q _ _ => ?_⟩
    · rw [own]
      exact ⟨shaped _, loc _⟩
    · rw [own]
      exact frame _
  have passed : c.check m = .ok () := by
    refine Coordinates.check_of_sound fun q _ x y interior => ?_
    have has := ((holds q).interior_point interior (le_refl 0) (by have := (holds q).points; omega)).1
    rw [own, Field.get_eq (holds q).fits has]
    exact ⟨_, rfl, by rw [values _ x y 0 has]; exact shearMetric_sound ..⟩
  have kernels (axis : Axis) := Mesh.default_kernel loaded axis (show Kind.first ∈ _ by simp)
  have every {i : Nat} (inside : i < l.count) : i = 0 := by omega
  have own : ∀ i < l.count, (Rank.ofMesh m []).mesh = m := fun _ _ => rfl
  have covered : ∀ i < l.count, c.Covers m false := fun _ _ => covers
  obtain ⟨after, ranks, ends, -⟩ := Together.computeGeometry (l := l) (fun i inside => every inside ▸ given)
    (fun _ _ => room) own covered (fun _ _ => passed) fun _ _ => kernels
  obtain ⟨events, path⟩ := ends.exists_path (i := 0) (by omega)
  have keeps (c : Coordinates ℝ) : RankM.Leads (fun r => r.mesh = m) (RankM.keepCoordinates c) fun _ r => r.mesh = m :=
    fun r kept _ _ => kept
  obtain ⟨⟨d, derived, compatible⟩, -⟩ :=
    ((christoffel_symbols_compatible GridSource.empty (by decide : 0 < 1) loaded room keeps c) _ rfl).at_path path _ rfl
  refine ⟨m, c, after 0, ranks 0, events, d, loaded, path, derived, fun x y z interior low high => ?_⟩
  have dual : c.DualAt x y z := by
    intro i k
    rw [← shearMetric_dual i k (m.globalX x)]
    refine Finset.sum_congr rfl fun l _ => ?_
    exact congrArg₂ (· * ·) (known (.contravariant (.of i l)) interior low high)
      (known (.covariant (.of l k)) interior low high)
  exact ⟨⟨known (.covariant .p12) interior low high, dual⟩,
    fun i j k => (compatible i j k).2 x y z interior low high dual⟩

end HaloMesh
