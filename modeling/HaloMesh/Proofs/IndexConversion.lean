import Mathlib.Analysis.Real.Sqrt
import HaloMesh.Operator.Calculus
import HaloMesh.Proofs.JointCoordinates
import HaloMesh.Proofs.LinearOperators
import HaloMesh.Proofs.SharedOpenings

/-! Vectors with upper and with lower indices. Where the two metrics are inverse to each other, a vector has the same
components again once its indices were lowered and raised, and an operator that raises or lowers them first takes either
form for the other one. -/

namespace HaloMesh
open Transport Program

namespace Vector3

variable {v w u : Vector3 (Field ℝ)} {m : Mesh ℝ} {loc : Location} {g h : Axis → Axis → Field ℝ}

theorem ext_component (components : ∀ i, v.component i = w.component i) (kind : v.covariant = w.covariant) : v = w := by
  obtain ⟨x, y, z, _⟩ := v
  obtain rfl : x = w.x := components .x
  obtain rfl : y = w.y := components .y
  obtain rfl : z = w.z := components .z
  cases kind
  rfl

/-- A vector over a block, with all its components at one location. -/
structure Over (v : Vector3 (Field ℝ)) (m : Mesh ℝ) (loc : Location) : Prop where
  shaped : ∀ i, (v.component i).extents = m.extents
  loc : ∀ i, (v.component i).loc = loc

/-- The components of a vector are at every point those of another one, contracted with a tensor. -/
structure Contracts (g : Axis → Axis → Field ℝ) (v w : Vector3 (Field ℝ)) : Prop where
  alike : ∀ i, Field.Alike (v.component i) (w.component i)
  values : ∀ i x y z, (v.component i).HasPoint x y z →
    (w.component i).value x y z = ∑ j, (g i j).value x y z * (v.component j).value x y z

theorem Over.contracts (spans : v.Over m loc) (contracts : Contracts g v w) : w.Over m loc :=
  ⟨fun i => (contracts.alike i).extents.trans (spans.shaped i), fun i => (contracts.alike i).loc.trans (spans.loc i)⟩

theorem Over.location (spans : v.Over m loc) : v.location = .ok (.real loc) := by
  have x : v.x.loc = loc := spans.loc .x
  have y : v.y.loc = loc := spans.loc .y
  have z : v.z.loc = loc := spans.loc .z
  rw [Vector3.location, x, y, z, if_pos ⟨rfl, rfl⟩]

theorem Contracts.unique (first : Contracts g v w) (second : Contracts g v u) (spans : v.Over m loc)
    (fits : ∀ f : Field ℝ, f.extents = m.extents → f.Fits) (i : Axis) : u.component i = w.component i := by
  have alike := first.alike i
  refine Field.eq_of_values (alike.fits (fits _ (spans.shaped i))) (alike.symm.trans (second.alike i)) fun x y z has => ?_
  have point := alike.hasPoint.mp has
  rw [first.values i x y z point, second.values i x y z point]

/-- Contractions with tensors that are inverse to each other at every point undo each other. -/
theorem Contracts.undone (there : Contracts g v w) (back : Contracts h w u) (spans : v.Over m loc)
    (fits : ∀ f : Field ℝ, f.extents = m.extents → f.Fits) (inverse : ∀ (f : Field ℝ) x y z, f.extents = m.extents →
      f.HasPoint x y z → ∀ i k, ∑ j, (h i j).value x y z * (g j k).value x y z = if i = k then 1 else 0) (i : Axis) :
    u.component i = v.component i := by
  refine Field.eq_of_values (fits _ (spans.shaped i)) ((there.alike i).trans (back.alike i)) fun x y z has => ?_
  have point (j : Axis) : (v.component j).HasPoint x y z :=
    (Field.hasPoint_congr ((spans.shaped j).trans (spans.shaped i).symm)).mpr has
  calc (u.component i).value x y z
    _ = ∑ j, (h i j).value x y z * (w.component j).value x y z :=
        back.values i x y z ((there.alike i).hasPoint.mpr has)
    _ = ∑ j, ∑ k, (h i j).value x y z * (g j k).value x y z * (v.component k).value x y z := by
        refine Finset.sum_congr rfl fun j _ => ?_
        rw [there.values j x y z (point j), Finset.mul_sum]
        simp only [mul_assoc]
    _ = ∑ k, (∑ j, (h i j).value x y z * (g j k).value x y z) * (v.component k).value x y z := by
        rw [Finset.sum_comm]
        simp only [Finset.sum_mul]
    _ = (v.component i).value x y z := by
        simp only [inverse _ x y z (spans.shaped i) has, ite_mul, one_mul, zero_mul, Finset.sum_ite_eq, Finset.mem_univ,
          ↓reduceIte]

end Vector3

namespace Rank

variable {r : Rank ℝ} {m : Mesh ℝ} {loc : Location} {c used : Coordinates ℝ} {v : Vector3 (Field ℝ)}

theorem returns_kept (kept : r.coordinatesOf? loc = some c) : r.Returns (RankM.coordinatesAt (.real loc)) c :=
  RankM.returns_coordinatesAt (show (Placement.real loc).orElse .centre = .real loc from rfl) kept

/-- The coordinates that give the metric for vectors at a location: the ones at hand if they are there, and else those that
the mesh has. -/
def Uses (r : Rank ℝ) (c : Coordinates ℝ) (loc : Location) (used : Coordinates ℝ) : Prop :=
  if loc = c.loc then used = c else r.coordinatesOf? loc = some used

/-- The products of a row of the metric with the components are added up. -/
theorem addsProducts {g : Axis → Field ℝ} (here : ∀ j, (v.component j).loc = loc) {size : Nat}
    (sizes : ∀ j, (v.component j).data.size = size ∧ (g j).data.size = size) (axes : List Axis) {data : Array ℝ}
    (whole : data.size = size) : ∃ sum, r.Returns (axes.foldlM (fun data j => do
      let vj ← RankM.moved (v.component j) loc
      RankM.ofOutcome (addProducts data (g j).data vj.data)) data) sum ∧ sum.size = size ∧
        ∀ n : Nat, sum[n]?.getD 0 = data[n]?.getD 0 + (axes.map fun j => (g j).valueAt n * (v.component j).valueAt n).sum := by
  induction axes generalizing data with
  | nil => exact ⟨data, rfl, whole, fun n => by simp⟩
  | cons j rest ih =>
    have fits : (v.component j).data.size ≤ data.size ∧ (v.component j).data.size ≤ (g j).data.size := by
      rw [whole, (sizes j).1, (sizes j).2]
      exact ⟨le_refl _, le_refl _⟩
    obtain ⟨next, added, whole', values⟩ := addProducts_ok fits
    obtain ⟨sum, summed, long, totals⟩ := ih (whole'.trans whole)
    have still : r.Returns (RankM.moved (v.component j) loc) (v.component j) := by
      refine returns_ofOutcome ?_
      rw [Field.interpolate, if_pos (here j).symm]
    refine ⟨sum, ?_, long, fun n => ?_⟩
    · rw [List.foldlM_cons]
      exact (still.bind (returns_ofOutcome added)).bind summed
    · rw [totals, values, List.map_cons, List.sum_cons, add_assoc, Field.valueAt, Field.valueAt, Exact.zero_eq]

/-- One component comes out as the contraction of the vector with a row of the metric. -/
theorem convertsComponent (metric : Coordinates ℝ → Axis → Axis → Field ℝ) (uses : r.Uses c loc used) (spans : v.Over m loc)
    (shaped : ∀ i j, (metric used i j).extents = m.extents) (i : Axis) :
    ∃ f, r.Returns (RankM.convertComponent c metric v i) f ∧ Field.Alike (v.component i) f ∧
      ∀ x y z, (v.component i).HasPoint x y z →
        f.value x y z = ∑ j, (metric used i j).value x y z * (v.component j).value x y z := by
  have sized (f : Field ℝ) (block : f.extents = m.extents) : f.data.size = (v.component i).data.size :=
    Field.size_congr (block.trans (spans.shaped i).symm)
  have blank : (v.component i).zeroLike.data.size = (v.component i).data.size := Array.size_map ..
  obtain ⟨sum, summed, whole, totals⟩ := addsProducts (r := r) (g := metric used i) spans.loc
    (fun j => ⟨sized _ (spans.shaped j), sized _ (shaped i j)⟩) Axis.all blank
  have written : ∃ f, (v.component i).withData sum = .ok f := ⟨_, dif_pos whole⟩
  obtain ⟨f, written⟩ := written
  obtain ⟨data, alike⟩ := Field.withData_ok written
  refine ⟨f, ?_, alike, fun x y z has => ?_⟩
  · unfold RankM.convertComponent
    simp only [spans.loc i]
    by_cases here : loc = c.loc
    · obtain rfl : used = c := by rwa [Uses, if_pos here] at uses
      rw [if_pos here]
      refine Returns.bind (show r.Returns (pure used) used from rfl) ?_
      exact summed.bind (returns_ofOutcome written)
    · rw [Uses, if_neg here] at uses
      rw [if_neg here]
      refine (returns_kept uses).bind ?_
      exact summed.bind (returns_ofOutcome written)
  · have total := totals ((v.component i).place x y z).toNat
    have zero : ((v.component i).zeroLike.data[((v.component i).place x y z).toNat]?).getD 0 = (0 : ℝ) := by
      cases found : (v.component i).data[((v.component i).place x y z).toNat]? <;>
        simp [Field.zeroLike, Field.fill, Field.map, found, Exact.zero_eq]
    rw [Field.value, alike.place, data, Exact.zero_eq, total, zero, zero_add, Axis.sum_eq]
    simp only [Axis.all, List.map_cons, List.map_nil, List.sum_cons, List.sum_nil, add_zero, add_assoc]
    simp only [Field.valueAt_place ((shaped i _).trans (spans.shaped i).symm),
      Field.valueAt_place ((spans.shaped _).trans (spans.shaped i).symm)]

theorem converts (metric : Coordinates ℝ → Axis → Axis → Field ℝ) (uses : r.Uses c loc used) (spans : v.Over m loc)
    (shaped : ∀ i j, (metric used i j).extents = m.extents) (covariant : Bool) :
    ∃ w, r.Returns (RankM.convert c metric v covariant) w ∧ w.covariant = covariant ∧ Vector3.Contracts (metric used) v w := by
  choose f returned alike values using convertsComponent metric uses spans shaped
  refine ⟨⟨f .x, f .y, f .z, covariant⟩, ?_, rfl, fun i => ?_, fun i => ?_⟩
  · exact (returned .x).bind ((returned .y).bind ((returned .z).bind rfl))
  · cases i <;> exact alike _
  · cases i <;> exact values _

end Rank

namespace Coordinates

variable {c : Coordinates ℝ} {m : Mesh ℝ} {f : Field ℝ} {x y z : Int}

/-- The metric that gives the components of one kind. -/
def metricFor (c : Coordinates ℝ) (covariant : Bool) : Axis → Axis → Field ℝ :=
  if covariant then c.covariantAt else c.contravariantAt

theorem Dual.shaped_metricFor (dual : c.Dual m) (covariant : Bool) (i j : Axis) :
    (c.metricFor covariant i j).extents = m.extents := by
  cases covariant
  · exact dual.shaped (.contravariant (.of i j)) (Quantity.contravariant_mem _)
  · exact dual.shaped (.covariant (.of i j)) (Quantity.covariant_mem _)

/-- The metrics for both kinds are inverse to each other, whichever comes first. -/
theorem Dual.inverse_metricFor (dual : c.Dual m) (covariant : Bool) (block : f.extents = m.extents)
    (has : f.HasPoint x y z) (i k : Axis) : ∑ j, (c.metricFor (!covariant) i j).value x y z *
      (c.metricFor covariant j k).value x y z = if i = k then 1 else 0 := by
  have same : c.contravariant.c11.extents = f.extents :=
    (dual.shaped (.contravariant .p11) (by decide)).trans block.symm
  have inverse := dual.inverse x y z ((Field.hasPoint_congr same).mpr has)
  cases covariant with
  | true => exact inverse i k
  | false =>
    have mirrored (j : Axis) : (c.covariantAt i j).value x y z * (c.contravariantAt j k).value x y z =
        (c.contravariantAt k j).value x y z * (c.covariantAt j i).value x y z := by
      rw [mul_comm, covariantAt, contravariantAt, Pair.of_comm i j, Pair.of_comm j k]
      rfl
    calc ∑ j, (c.covariantAt i j).value x y z * (c.contravariantAt j k).value x y z
      _ = ∑ j, (c.contravariantAt k j).value x y z * (c.covariantAt j i).value x y z :=
          Finset.sum_congr rfl fun j _ => mirrored j
      _ = if k = i then 1 else 0 := inverse k i
      _ = if i = k then 1 else 0 := by simp only [eq_comm]

end Coordinates

namespace RankM

/-- The components of one kind of a vector. -/
noncomputable def inForm (covariant : Bool) (c : Coordinates ℝ) (v : Vector3 (Field ℝ)) : RankM ℝ (Vector3 (Field ℝ)) :=
  if covariant then toCovariant c v else toContravariant c v

variable {v : Vector3 (Field ℝ)}

theorem inForm_own (c : Coordinates ℝ) {covariant : Bool} (kind : v.covariant = covariant) : inForm covariant c v = pure v := by
  subst kind
  cases kind : v.covariant <;> simp [inForm, toCovariant, toContravariant, kind]

theorem inForm_other (c : Coordinates ℝ) {covariant : Bool} (kind : v.covariant = !covariant) :
    inForm covariant c v = convert c (fun c => c.metricFor covariant) v covariant := by
  cases covariant <;> simp [inForm, toCovariant, toContravariant, kind, Coordinates.metricFor]

/-- A curl is at the location of its vector unless told otherwise. -/
theorem curl_run {m : Mesh ℝ} {loc : Location} (spans : v.Over m loc) (place : Placement) (r : Rank ℝ) :
    (curl v place).run.run r = (let (px, py, pz) := (place.orElse loc).expand; curlAt v px py pz).run.run r := by
  unfold curl
  rw [spans.location]
  cases place with
  | inherit => rfl
  | real | shifted => rfl

/-- Where coordinates do not have the metric for a vector, a conversion asks the mesh for it first. -/
theorem opens_inForm {m : Mesh ℝ} {loc : Location} {c : Coordinates ℝ} {covariant : Bool} (spans : v.Over m loc)
    (kind : v.covariant = !covariant) (away : loc ≠ c.loc) : Opens (coordinatesAt (.real loc)) (inForm covariant c v) := by
  rw [inForm_other c kind]
  refine Opens.bind ?_ _
  unfold convertComponent
  simp only [spans.loc, if_neg away]
  exact opens_bind _ _

/-- The other form of a vector, and what comes back from it. -/
noncomputable def thereAndBack (covariant : Bool) (c : Coordinates ℝ) (v : Vector3 (Field ℝ)) :
    RankM ℝ (Vector3 (Field ℝ) × Vector3 (Field ℝ)) := do
  let w ← inForm covariant c v
  return (w, ← inForm (!covariant) c w)

end RankM

/-- An operator that raises or lowers the indices of a vector first, with all else that it works on. -/
inductive VectorOperator : Type → Type where
  | divergence (place : Placement) : VectorOperator (Field ℝ)
  | fluxDivergence (f : Field ℝ) (s : Scheme) : VectorOperator (Field ℝ)
  | curl (place : Placement) : VectorOperator (Vector3 (Field ℝ))
  | curlAt (px py pz : Placement) : VectorOperator (Vector3 (Field ℝ))
  | advect (f : Field ℝ) (s : Scheme) : VectorOperator (Field ℝ)
  | advectVector (a : Vector3 (Field ℝ)) (s : Scheme) : VectorOperator (Vector3 (Field ℝ))

/-- Has an operator work on a vector. -/
noncomputable def VectorOperator.apply {β : Type} : VectorOperator β → Vector3 (Field ℝ) → RankM ℝ β
  | .divergence place, v => RankM.divergence v place
  | .fluxDivergence f s, v => RankM.fluxDivergence v f s
  | .curl place, v => RankM.curl v place
  | .curlAt px py pz, v => RankM.curlAt v px py pz
  | .advect f s, v => RankM.advect v f s
  | .advectVector a s, v => RankM.advectVector v a s

/-- Operators keep to the mail of their rank. -/
theorem VectorOperator.discreet {β : Type} (o : VectorOperator β) (v : Vector3 (Field ℝ)) : (o.apply v).Discreet := by
  cases o with
  | divergence place => exact RankM.discreet_divergence v place
  | fluxDivergence f s => exact RankM.discreet_fluxDivergence v f s
  | curl place => exact RankM.discreet_curl v place
  | curlAt px py pz => exact RankM.discreet_curlAt v px py pz
  | advect f s => exact RankM.discreet_advect v f s
  | advectVector a s => exact RankM.discreet_advectVector v a s

/-- All operators do the same with two vectors on a rank, whatever else they work on. -/
def Rank.TreatsAlike (r : Rank ℝ) (v w : Vector3 (Field ℝ)) : Prop :=
  ∀ {β : Type} (o : VectorOperator β), (o.apply w).run.run r = (o.apply v).run.run r

/-- Two vectors are the forms of one under this metric: every rank turns them into one another by coordinates that have it
where the vectors are. -/
structure Coordinates.Pairs (g : Coordinates ℝ) (loc : Location) (covariant : Bool) (v w : Vector3 (Field ℝ)) : Prop where
  kinds : v.covariant = !covariant ∧ w.covariant = covariant
  there : ∀ (r : Rank ℝ) c used, r.Uses c loc used → used.SameMetric g → r.Returns (RankM.inForm covariant c v) w
  back : ∀ (r : Rank ℝ) c used, r.Uses c loc used → used.SameMetric g → r.Returns (RankM.inForm (!covariant) c w) v

section Forms

variable {r : Rank ℝ} {m : Mesh ℝ} {loc : Location} {g k c used : Coordinates ℝ} {v w : Vector3 (Field ℝ)} {covariant : Bool}

/-- A vector of one kind has a form of the other kind, the same one on all ranks and for all coordinates with this metric, and
comes back from it. -/
theorem Rank.exists_form (r : Rank ℝ) (here : g.loc = loc) (dual : g.Dual m) (spans : v.Over m loc)
    (fits : ∀ f : Field ℝ, f.extents = m.extents → f.Fits) (kind : v.covariant = !covariant) :
    ∃ w, w.Over m loc ∧ g.Pairs loc covariant v w := by
  have own : r.Uses g loc g := by rw [Uses, if_pos here.symm]
  obtain ⟨w, -, form, contracts⟩ := converts (·.metricFor covariant) own spans (dual.shaped_metricFor covariant) covariant
  have spans' := spans.contracts contracts
  have metric {used : Coordinates ℝ} (same : used.SameMetric g) (covariant : Bool) :
      used.metricFor covariant = g.metricFor covariant := by
    cases covariant
    · exact congrArg (fun s : Symmetric (Field ℝ) => fun i j => s.get (.of i j)) same.contravariant
    · exact congrArg (fun s : Symmetric (Field ℝ) => fun i j => s.get (.of i j)) same.covariant
  have shaped {used : Coordinates ℝ} (same : used.SameMetric g) (covariant : Bool) (i j : Axis) :
      (used.metricFor covariant i j).extents = m.extents := by
    rw [metric same]
    exact dual.shaped_metricFor covariant i j
  refine ⟨w, spans', ⟨kind, form⟩, fun r c used uses same => ?_, fun r c used uses same => ?_⟩
  · obtain ⟨w', returned, form', contracts'⟩ := converts (·.metricFor covariant) uses spans (shaped same covariant) covariant
    simp only [metric same] at contracts'
    obtain rfl : w' = w := Vector3.ext_component (contracts.unique contracts' spans fits) (form'.trans form.symm)
    rwa [RankM.inForm_other c kind]
  · obtain ⟨u, returned, form', back⟩ := converts (·.metricFor !covariant) uses spans' (shaped same !covariant) !covariant
    simp only [metric same] at back
    obtain rfl : u = v := Vector3.ext_component
      (contracts.undone back spans fits fun f x y z block has i k => dual.inverse_metricFor covariant block has i k)
      (form'.trans kind.symm)
    rwa [RankM.inForm_other c (by rw [form, Bool.not_not])]

theorem Rank.Returns.run_bind {β γ : Type} {r : Rank ℝ} {p : RankM ℝ β} {b : β} (returned : r.Returns p b)
    (next : β → RankM ℝ γ) : (p >>= next).run.run r = (next b).run.run r := by
  rw [RankM.run_bind, returned]
  rfl

namespace Coordinates.Pairs

variable (pairs : g.Pairs loc covariant v w)
include pairs

theorem of_same (same : k.SameMetric g) : k.Pairs loc covariant v w where
  kinds := pairs.kinds
  there r c used uses has := pairs.there r c used uses (has.trans same)
  back r c used uses has := pairs.back r c used uses (has.trans same)

theorem thereAndBack (uses : r.Uses c loc used) (same : used.SameMetric g) :
    r.Returns (RankM.thereAndBack covariant c v) (w, v) :=
  (pairs.there r c used uses same).bind ((pairs.back r c used uses same).bind rfl)

/-- Operators start by raising or lowering the indices of a vector. Both forms have the same components then, so that they are
the same for the operators. -/
theorem treatsAlike (kept : r.coordinatesOf? loc = some k) (here : k.loc = loc) (same : k.SameMetric g) (spans : v.Over m loc)
    (spans' : w.Over m loc) : r.TreatsAlike v w := by
  have uses : r.Uses k loc k := by rw [Rank.Uses, if_pos here.symm]
  have forms (kind : Bool) : ∃ u, r.Returns (RankM.inForm kind k v) u ∧ r.Returns (RankM.inForm kind k w) u := by
    by_cases asked : kind = covariant
    · subst asked
      refine ⟨w, pairs.there r k k uses same, ?_⟩
      rw [RankM.inForm_own k pairs.kinds.2]
      rfl
    · obtain rfl : kind = !covariant := Bool.eq_not_of_ne asked
      refine ⟨v, ?_, pairs.back r k k uses same⟩
      rw [RankM.inForm_own k pairs.kinds.1]
      rfl
  have known {v : Vector3 (Field ℝ)} (spans : v.Over m loc) : r.Returns (RankM.coordinatesAt (.real v.x.loc)) k := by
    rw [show v.x.loc = loc from spans.loc .x]
    exact Rank.returns_kept kept
  obtain ⟨upper, upperV, upperW⟩ := forms false
  obtain ⟨lower, lowerV, lowerW⟩ : ∃ u, r.Returns (RankM.toCovariant k v) u ∧ r.Returns (RankM.toCovariant k w) u := forms true
  have raisedV : r.Returns (RankM.raised v) upper := (known spans).bind upperV
  have raisedW : r.Returns (RankM.raised w) upper := (known spans').bind upperW
  have dense : (RankM.density w).run.run r = (RankM.density v).run.run r := by
    rw [RankM.density, RankM.density, raisedV.run_bind, raisedW.run_bind]
  have alike : w.location = v.location := spans'.location.trans spans.location.symm
  have curled (px py pz : Placement) : (RankM.curlAt w px py pz).run.run r = (RankM.curlAt v px py pz).run.run r := by
    rw [RankM.curlAt, RankM.curlAt, (known spans).run_bind, (known spans').run_bind, lowerV.run_bind, lowerW.run_bind, alike]
  intro β o
  cases o with dsimp only [VectorOperator.apply]
  | divergence => rw [RankM.divergence, RankM.divergence, RankM.run_bind, RankM.run_bind, dense]
  | fluxDivergence => rw [RankM.fluxDivergence, RankM.fluxDivergence, RankM.run_bind, RankM.run_bind, dense]
  | curl place => rw [RankM.curl_run spans' place, RankM.curl_run spans place, curled]
  | curlAt => exact curled ..
  | advect => rw [RankM.advect, RankM.advect, raisedV.run_bind, raisedW.run_bind]
  | advectVector => rw [RankM.advectVector, RankM.advectVector, raisedV.run_bind, raisedW.run_bind]

end Coordinates.Pairs

/-- Operators ask the mesh for the coordinates where the vector is first. -/
theorem VectorOperator.opens {β : Type} (o : VectorOperator β) (spans : v.Over m loc) :
    RankM.Opens (RankM.coordinatesAt (.real loc)) (o.apply v) := by
  obtain rfl : v.x.loc = loc := spans.loc .x
  have raised : RankM.Opens (RankM.coordinatesAt (.real v.x.loc)) (RankM.raised v) := RankM.opens_bind _ _
  have dense : RankM.Opens (RankM.coordinatesAt (.real v.x.loc)) (RankM.density v) := raised.bind _
  cases o with
  | divergence => exact dense.bind _
  | fluxDivergence => exact dense.bind _
  | curl place => exact (RankM.opens_bind _ _).congr (RankM.curl_run spans place)
  | curlAt => exact RankM.opens_bind _ _
  | advect => exact raised.bind _
  | advectVector => exact raised.bind _

end Forms

end HaloMesh
