import Mathlib.Analysis.Real.Sqrt
import HaloMesh.Proofs.FluxDivergence
import HaloMesh.Proofs.RelatedFields
import HaloMesh.Proofs.VectorIdentities

/-! Linear operators. Gradient, divergence and curl take operands with linear relations between them to results with the
same relations, as long as first derivatives are weightings: metrics are the same for all operands, once they were made,
and interpolations, conversions and corrections weight their operands, too. -/

namespace HaloMesh
open Transport Program

namespace RankM

section Rules

variable {α ι β γ : Type} [Scalar α] {m : Mesh α} {R : (ι → β) → Prop} {Q : (ι → γ) → Prop} {p : ι → RankM α β}
  {next : ι → β → RankM α γ}

/-- Where one of some computations returns, all of them return from then on, at once and always the same, and what they
return is related. -/
def Jointly (m : Mesh α) (R : (ι → β) → Prop) (p : ι → RankM α β) : Prop :=
  ∀ i r, r.Unshifted m → Leads (fun before => before = r) (p i) fun b r' => r'.Unshifted m ∧ r'.Retains r ∧
    ∃ bs, bs i = b ∧ R bs ∧ ∀ later : Rank α, later.Retains r' → ∀ j, later.Returns (p j) (bs j)

theorem Jointly.bind (first : Jointly m R p) (second : ∀ bs, R bs → Jointly m Q fun j => next j (bs j)) :
    Jointly m Q fun j => p j >>= next j := by
  intro i r kept
  refine Leads.bind (first i r kept) fun b => ?_
  intro r' known
  obtain ⟨kept', retains, bs, rfl, related, again⟩ := known
  refine (second bs related i r' kept' r' rfl).mono fun ended known' c found => ?_
  obtain ⟨kept'', retains', cs, own, related', again'⟩ := known' c found
  refine ⟨kept'', retains'.trans retains, cs, own, related', fun later has j => ?_⟩
  exact (again later (has.trans retains') j).bind (again' later has j)

theorem Jointly.mono (joint : Jointly m R p) {R' : (ι → β) → Prop} (weaker : ∀ bs, R bs → R' bs) : Jointly m R' p := by
  intro i r kept
  refine (joint i r kept).weaken fun b r' known => ?_
  obtain ⟨kept', retains, bs, own, related, again⟩ := known
  exact ⟨kept', retains, bs, own, weaker bs related, again⟩

theorem Jointly.of_member (each : ι → Jointly m R p) : Jointly m R p := fun i => each i i

theorem jointly_ofOutcome {o : ι → Outcome β} (outcomes : Outcome.Jointly R o) : Jointly m R fun j => ofOutcome (o j) := by
  intro i r kept
  refine leads_ofOutcome fun r' b start found => ?_
  subst start
  obtain ⟨bs, all, related⟩ := outcomes i b found
  refine ⟨kept, .refl r', bs, Except.ok.inj ((all i).symm.trans found), related, fun later _ j => ?_⟩
  exact congrArg (fun outcome => finished (outcome, later)) (all j)

theorem jointly_pure {bs : ι → β} (related : R bs) : Jointly m R fun j => (pure (bs j) : RankM α β) :=
  jointly_ofOutcome (Outcome.jointly_ok related)

theorem jointly_foldlM {κ : Type} {step : ι → β → κ → RankM α β} {items : List κ}
    (each : ∀ item bs, R bs → Jointly m R fun j => step j (bs j) item) {bs : ι → β} (start : R bs) :
    Jointly m R fun j => items.foldlM (step j) (bs j) := by
  induction items generalizing bs with
  | nil => exact jointly_pure start
  | cons item rest ih =>
    simp only [List.foldlM_cons]
    exact (each item bs start).bind fun _ related => ih related

theorem jointly_mesh : Jointly m (fun ms => ms = fun _ => m) fun _ : ι => mesh := by
  intro i r kept r' start b found
  subst start
  obtain rfl := Except.ok.inj found
  refine ⟨kept, .refl _, fun _ => m, kept.mesh.symm, rfl, fun later has j => ?_⟩
  exact congrArg (fun own => finished (Except.ok own, later)) (has.mesh.trans kept.mesh)

theorem jointly_coordinatesAt (place : Placement) : Jointly m Outcome.Constant fun _ : ι => coordinatesAt place := by
  intro i r kept
  have began (r' : Rank α) (start : r' = r) : r'.Continues r := start ▸ ⟨.refl r', rfl⟩
  refine Leads.weaken (Leads.narrow (leads_coordinatesAt place) began) fun c r' made => ?_
  obtain ⟨continues, loc, located, found⟩ := made
  refine ⟨continues.unshifted kept, continues.retains, fun _ => c, rfl, ⟨c, rfl⟩, fun later has _ => ?_⟩
  exact returns_coordinatesAt located (has.coordinates loc c found)

theorem jointly_transform : Jointly m (fun ts => ts = fun _ => .identity) fun _ : ι => parallelTransform := by
  intro i r kept r' start
  subst start
  rw [parallelTransform_run kept]
  intro t found
  obtain rfl := Except.ok.inj found
  have retains : (settled r').Retains r' := by
    refine ⟨rfl, fun _ _ found => found, fun t found => ?_⟩
    rcases kept.identity with chosen | ⟨none, -⟩
    · rw [← found, chosen]
      rfl
    · exact nomatch none.symm.trans found
  refine ⟨settled_unshifted kept, retains, fun _ => .identity, rfl, rfl, fun later has j => ?_⟩
  have made := has.transform .identity rfl
  have kept' : later.Unshifted m := ⟨has.mesh.trans kept.mesh, .inl made⟩
  have same : settled later = later := by rw [settled, ← made]
  rw [Rank.Returns, parallelTransform_run kept', same]

end Rules

section Derivatives

variable {ι : Type} {S : Submodule ℝ (ι → ℝ)} {m : Mesh ℝ} {f : ι → Field ℝ}

theorem jointly_toAligned (related : RelatedFields S f) : Jointly m (RelatedFields S) fun j => toAligned (f j) := by
  refine jointly_transform.bind fun ts same => ?_
  subst same
  exact jointly_ofOutcome (Outcome.jointly_ok (related.setAligned true))

theorem jointly_fromAligned (related : RelatedFields S f) : Jointly m (RelatedFields S) fun j => fromAligned (f j) := by
  refine jointly_transform.bind fun ts same => ?_
  subst same
  exact jointly_ofOutcome (Outcome.jointly_ok (related.setAligned false))

theorem jointly_scaled (related : RelatedFields S f) (axis : Axis) :
    Jointly m (RelatedFields S) fun j => scaled axis 1 (f j) := by
  refine .of_member fun i => ?_
  unfold scaled
  simp only [fun j => (related.alike i j).loc]
  refine (jointly_coordinatesAt _).bind fun cs constant => ?_
  obtain ⟨c, rfl⟩ := constant
  cases axis with
  | x | y =>
    simp only [Field.dividedRepeatedly_one]
    exact jointly_ofOutcome (related.dividedBy _)
  | z => exact jointly_pure (related.scale _)

variable (linear : m.LinearDefaults)
include linear

theorem jointly_alongAt (related : RelatedFields S f) (axis : Axis) (place : Placement) :
    Jointly m (RelatedFields S) fun j => alongAt axis (f j) place := by
  refine .of_member fun i => ?_
  unfold alongAt derivative
  simp only [fun j => (related.alike i j).aligned]
  refine jointly_mesh.bind fun ms same => ?_
  subst same
  have plain {g : ι → Field ℝ} (inputs : RelatedFields S g) : Jointly m (RelatedFields S) fun j =>
      ofOutcome (m.derivative axis .first (g j) place .standard false) :=
    jointly_ofOutcome (Mesh.jointly_derivative linear inputs place false)
  split
  · refine (jointly_toAligned related).bind fun g aligned => (plain aligned).bind fun d derived => ?_
    exact (jointly_fromAligned derived).bind fun e back => jointly_scaled back axis
  · exact (plain related).bind fun d derived => jointly_scaled derived axis

end Derivatives

end RankM

/-- Vectors of one kind with related components. -/
structure RelatedVectors {ι : Type} (S : Submodule ℝ (ι → ℝ)) (v : ι → Vector3 (Field ℝ)) : Prop where
  kind : ∀ i j, (v i).covariant = (v j).covariant
  components : ∀ axis, RelatedFields S fun j => (v j).component axis

namespace RelatedVectors

variable {ι : Type} {S : Submodule ℝ (ι → ℝ)} {v : ι → Vector3 (Field ℝ)}

theorem of_components {x y z : ι → Field ℝ} (first : RelatedFields S x) (second : RelatedFields S y)
    (third : RelatedFields S z) (covariant : Bool) : RelatedVectors S fun j => ⟨x j, y j, z j, covariant⟩ := by
  refine ⟨fun _ _ => rfl, fun axis => ?_⟩
  cases axis with
  | x => exact first
  | y => exact second
  | z => exact third

theorem loc (related : RelatedVectors S v) (i j : ι) (axis : Axis) :
    ((v j).component axis).loc = ((v i).component axis).loc := ((related.components axis).alike i j).loc

theorem location (related : RelatedVectors S v) (i j : ι) : (v j).location = (v i).location := by
  have x : (v j).x.loc = (v i).x.loc := related.loc i j .x
  have y : (v j).y.loc = (v i).y.loc := related.loc i j .y
  have z : (v j).z.loc = (v i).z.loc := related.loc i j .z
  rw [Vector3.location, Vector3.location, x, y, z]

end RelatedVectors

theorem addProducts_ok {sum g v : Array ℝ} (fits : v.size ≤ sum.size ∧ v.size ≤ g.size) :
    ∃ r, addProducts sum g v = .ok r ∧ r.size = sum.size ∧
      ∀ n : Nat, r[n]?.getD 0 = sum[n]?.getD 0 + g[n]?.getD 0 * v[n]?.getD 0 := by
  refine ⟨_, if_pos fits, Array.size_mapIdx, fun n => ?_⟩
  rw [Array.getElem?_mapIdx]
  by_cases inside : n < v.size
  · simp [inside, show n < sum.size by omega, show n < g.size by omega]
  · cases sum[n]? <;> simp [inside]

theorem jointly_addProducts {ι : Type} {S : Submodule ℝ (ι → ℝ)} {sum v : ι → Array ℝ} (sums : RelatedArrays S sum)
    (related : RelatedArrays S v) (g : Array ℝ) :
    Outcome.Jointly (RelatedArrays S) fun j => addProducts (sum j) g (v j) := by
  refine .of_member fun i => ?_
  by_cases fits : (v i).size ≤ (sum i).size ∧ (v i).size ≤ g.size
  · have fits' (j : ι) : (v j).size ≤ (sum j).size ∧ (v j).size ≤ g.size := by rwa [sums.size j i, related.size j i]
    choose r taken size values using fun j => addProducts_ok (fits' j)
    simp only [taken]
    refine Outcome.jointly_ok ⟨fun i j => by rw [size, size, sums.size i j], fun n => ?_⟩
    simp only [values]
    exact S.add_mem (sums.values n) (S.smul_mem _ (related.values n))
  · have refused (j : ι) : addProducts (sum j) g (v j) = Outcome.outOfRange := by
      refine if_neg ?_
      rwa [sums.size j i, related.size j i]
    simp only [refused]
    exact Outcome.jointly_error

namespace RankM

variable {ι : Type} {S : Submodule ℝ (ι → ℝ)} {m : Mesh ℝ} {f g : ι → Field ℝ} {v : ι → Vector3 (Field ℝ)}

theorem jointly_convertComponent (related : RelatedVectors S v) (c : Coordinates ℝ)
    (metric : Coordinates ℝ → Axis → Axis → Field ℝ) (i : Axis) :
    Jointly m (RelatedFields S) fun j => convertComponent c metric (v j) i := by
  refine .of_member fun first => ?_
  have own := related.components i
  unfold convertComponent
  simp only [fun j => related.loc first j i]
  have converted (c : Coordinates ℝ) : Jointly m (RelatedFields S) fun j => (do
      let data ← Axis.all.foldlM (fun data axis => do
        let w ← moved ((v j).component axis) ((v first).component i).loc
        ofOutcome (addProducts data (metric c i axis).data w.data)) ((v j).component i).zeroLike.data
      ofOutcome (((v j).component i).withData data) : RankM ℝ (Field ℝ)) := by
    refine Jointly.bind (R := RelatedArrays S) ?_ fun data sums => ?_
    · refine jointly_foldlM (fun axis data sums => ?_) (RelatedFields.zeroLike own.alike).arrays
      refine (jointly_ofOutcome ((related.components axis).interpolate _)).bind fun w moved => ?_
      exact jointly_ofOutcome (jointly_addProducts sums moved.arrays _)
    · exact jointly_ofOutcome (RelatedFields.withData own.alike sums)
  split
  · exact converted c
  · refine (jointly_coordinatesAt _).bind fun cs constant => ?_
    obtain ⟨c', rfl⟩ := constant
    exact converted c'

theorem jointly_convert (related : RelatedVectors S v) (c : Coordinates ℝ)
    (metric : Coordinates ℝ → Axis → Axis → Field ℝ) (covariant : Bool) :
    Jointly m (RelatedVectors S) fun j => convert c metric (v j) covariant := by
  unfold convert
  refine (jointly_convertComponent related c metric .x).bind fun x first => ?_
  refine (jointly_convertComponent related c metric .y).bind fun y second => ?_
  refine (jointly_convertComponent related c metric .z).bind fun z third => ?_
  exact jointly_pure (.of_components first second third covariant)

theorem jointly_toCovariant (related : RelatedVectors S v) (c : Coordinates ℝ) :
    Jointly m (RelatedVectors S) fun j => toCovariant c (v j) := by
  refine .of_member fun i => ?_
  unfold toCovariant
  simp only [fun j => related.kind j i]
  split
  · exact jointly_pure related
  · exact jointly_convert related c _ true

theorem jointly_toContravariant (related : RelatedVectors S v) (c : Coordinates ℝ) :
    Jointly m (RelatedVectors S) fun j => toContravariant c (v j) := by
  refine .of_member fun i => ?_
  unfold toContravariant
  simp only [fun j => related.kind j i]
  split
  · exact jointly_convert related c _ false
  · exact jointly_pure related

theorem jointly_raised (related : RelatedVectors S v) : Jointly m (RelatedVectors S) fun j => raised (v j) := by
  refine .of_member fun i => ?_
  have loc (j : ι) : (v j).x.loc = (v i).x.loc := related.loc i j .x
  unfold raised
  simp only [loc]
  refine (jointly_coordinatesAt _).bind fun cs constant => ?_
  obtain ⟨c, rfl⟩ := constant
  exact jointly_toContravariant related c

theorem jointly_density (related : RelatedVectors S v) : Jointly m (RelatedVectors S) fun j => density (v j) := by
  have weighed {f : ι → Field ℝ} (related : RelatedFields S f) : Jointly m (RelatedFields S) fun j =>
      (do ofOutcome ((← coordinatesAt (.real (f j).loc)).jacobian.mul (f j)) : RankM ℝ (Field ℝ)) := by
    refine .of_member fun i => ?_
    simp only [fun j => (related.alike i j).loc]
    refine (jointly_coordinatesAt _).bind fun cs constant => ?_
    obtain ⟨c, rfl⟩ := constant
    exact jointly_ofOutcome (related.mul _)
  unfold density Vector3.mapM
  refine (jointly_raised related).bind fun w upper => .of_member fun i => ?_
  refine (weighed (upper.components .x)).bind fun x first => ?_
  refine (weighed (upper.components .y)).bind fun y second => ?_
  refine (weighed (upper.components .z)).bind fun z third => ?_
  simp only [fun j => upper.kind j i]
  exact jointly_pure (.of_components first second third _)

theorem jointly_overJacobian (related : RelatedFields S f) (place : Placement) :
    Jointly m (RelatedFields S) fun j => overJacobian (f j) place := by
  unfold overJacobian
  refine (jointly_coordinatesAt _).bind fun cs constant => ?_
  obtain ⟨c, rfl⟩ := constant
  exact jointly_ofOutcome (related.dividedBy _)

variable (linear : m.LinearDefaults)
include linear

theorem jointly_gradient (related : RelatedFields S f) (place : Placement) :
    Jointly m (RelatedVectors S) fun j => gradient (f j) place := by
  refine .of_member fun i => ?_
  unfold gradient gradientAt
  simp only [fun j => (related.alike i j).loc]
  refine (jointly_alongAt linear related _ _).bind fun x first => ?_
  refine (jointly_alongAt linear related _ _).bind fun y second => ?_
  refine (jointly_alongAt linear related _ _).bind fun z third => ?_
  exact jointly_pure (.of_components first second third true)

theorem jointly_divergence (related : RelatedVectors S v) (place : Placement) :
    Jointly m (RelatedFields S) fun j => divergence (v j) place := by
  unfold divergence
  refine (jointly_density related).bind fun d dense => ?_
  refine (jointly_alongAt linear (dense.components .x) _ _).bind fun x first => ?_
  refine (jointly_alongAt linear (dense.components .y) _ _).bind fun y second => ?_
  refine (jointly_ofOutcome (first.add second)).bind fun xy added => ?_
  refine (jointly_alongAt linear (dense.components .z) _ _).bind fun z third => ?_
  exact (jointly_ofOutcome (added.add third)).bind fun sum total => jointly_overJacobian total _

theorem jointly_curlComponent (first : RelatedFields S f) (second : RelatedFields S g) (axis axis' : Axis)
    (place : Placement) : Jointly m (RelatedFields S) fun j => curlComponent axis (f j) axis' (g j) place := by
  unfold curlComponent
  refine (jointly_alongAt linear first _ _).bind fun a along => ?_
  refine (jointly_alongAt linear second _ _).bind fun b along' => ?_
  exact (jointly_ofOutcome (along.sub along')).bind fun d less => jointly_overJacobian less _

theorem jointly_curlAt (related : RelatedVectors S v) (px py pz : Placement) :
    Jointly m (RelatedVectors S) fun j => curlAt (v j) px py pz := by
  refine .of_member fun i => ?_
  have loc (j : ι) : (v j).x.loc = (v i).x.loc := related.loc i j .x
  unfold curlAt
  simp only [loc, fun j => related.location i j]
  refine (jointly_coordinatesAt _).bind fun cs constant => ?_
  obtain ⟨c, rfl⟩ := constant
  refine (jointly_toCovariant related c).bind fun w lowered => ?_
  refine (jointly_ofOutcome (Outcome.jointly_constant _)).bind fun ps constant => ?_
  obtain ⟨p, rfl⟩ := constant
  dsimp only
  refine (jointly_curlComponent linear (lowered.components .z) (lowered.components .y) _ _ _).bind fun x first => ?_
  refine (jointly_curlComponent linear (lowered.components .x) (lowered.components .z) _ _ _).bind fun y second => ?_
  refine (jointly_curlComponent linear (lowered.components .y) (lowered.components .x) _ _ _).bind fun z third => ?_
  refine jointly_mesh.bind fun ms same => ?_
  subst same
  dsimp only
  by_cases torsion : m.shape.shiftXderivs = true
  · simp only [if_pos torsion]
    refine (jointly_coordinatesAt _).bind fun cs constant => ?_
    obtain ⟨c', rfl⟩ := constant
    refine (jointly_ofOutcome ((lowered.components .z).interpolate _)).bind fun w moved => ?_
    refine jointly_pure (.of_components first second (.tabulate third.alike fun n => ?_) false)
    have weighted (j : ι) : c'.shiftTorsion.valueAt n * (w j).valueAt n / c'.jacobian.valueAt n =
        c'.shiftTorsion.valueAt n / c'.jacobian.valueAt n * (w j).valueAt n := by ring
    simp only [weighted]
    exact S.sub_mem (third.valueAt n) (S.smul_mem _ (moved.valueAt n))
  · simp only [if_neg torsion]
    exact jointly_pure (.of_components first second third false)

theorem jointly_curl (related : RelatedVectors S v) (place : Placement) :
    Jointly m (RelatedVectors S) fun j => curl (v j) place := by
  refine .of_member fun i => ?_
  unfold curl
  simp only [fun j => related.location i j]
  have placed (p : Placement) := jointly_curlAt linear related p.expand.1 p.expand.2.1 p.expand.2.2
  cases place with
  | inherit =>
    refine (jointly_ofOutcome (Outcome.jointly_constant _)).bind fun ps constant => ?_
    obtain ⟨p, rfl⟩ := constant
    exact placed p
  | shifted => exact placed .shifted
  | real loc => exact placed (.real loc)

end RankM

/-! Combinations of two operands. -/

/-- The triples whose last number is a combination of the others. -/
def combinations (a b : ℝ) : Submodule ℝ (Fin 3 → ℝ) where
  carrier := {v | v 2 = a * v 0 + b * v 1}
  add_mem' := by
    intro v w first second
    change v 2 + w 2 = a * (v 0 + w 0) + b * (v 1 + w 1)
    rw [first, second]
    ring
  zero_mem' := by simp
  smul_mem' := by
    intro s v member
    change s * v 2 = a * (s * v 0) + b * (s * v 1)
    rw [member]
    ring

section Combinations

variable {a b : ℝ}

theorem Field.eq_of_valueAt {f g : Field ℝ} (alike : Alike f g) (same : ∀ n, g.valueAt n = f.valueAt n) : g = f := by
  refine eq_of_alike alike (Array.ext alike.size fun n left right => ?_)
  simpa [valueAt, left, right] using same n

theorem Field.combination_ok {f g : Field ℝ} (alike : Alike f g) (a b : ℝ) : ∃ d, (f.scale a).add (g.scale b) = .ok d ∧
    Alike f d ∧ ∀ n, d.valueAt n = a * f.valueAt n + b * g.valueAt n := by
  have scaled (f : Field ℝ) (s : ℝ) : Alike f (f.scale s) := ⟨rfl, rfl, rfl, Array.size_map .., rfl, rfl⟩
  have both : Alike (f.scale a) (g.scale b) := (scaled f a).symm.trans (alike.trans (scaled g b))
  have own : (f.scale a).checkCompatible (f.scale a) "Add" = .ok () := by simp [checkCompatible, sameShape]
  have compatible := ((Alike.refl (f.scale a)).checkCompatible both "Add").symm.trans own
  obtain ⟨d, made⟩ : ∃ d, (f.scale a).withData (Array.zipWith (· + ·) (f.scale a).data (g.scale b).data) = .ok d :=
    withData_of_size (by rw [Array.size_zipWith, both.size, min_self])
  refine ⟨d, Outcome.bind_eq_ok.mpr ⟨(), compatible, made⟩, (scaled f a).trans (withData_ok made).2, fun n => ?_⟩
  have data : d.data = Array.zipWith (· + ·) (f.data.map fun v => a * v) (g.data.map fun v => b * v) := (withData_ok made).1
  simp only [valueAt, data, Exact.zero_eq]
  by_cases inside : n < f.data.size
  · simp [inside, alike.size]
  · simp [inside, alike.size]

theorem relatedFields_iff {f g h : Field ℝ} :
    RelatedFields (combinations a b) ![f, g, h] ↔ (f.scale a).add (g.scale b) = .ok h := by
  constructor
  · intro related
    obtain ⟨d, taken, alike, values⟩ := Field.combination_ok (related.alike 0 1) a b
    have same : d = h := Field.eq_of_valueAt ((related.alike 2 0).trans alike) fun n =>
      (values n).trans (related.valueAt n).symm
    exact taken.trans (congrArg Except.ok same)
  · intro taken
    obtain ⟨-, extents, loc, aligned⟩ := Field.combine_ok taken
    have second : Field.Alike f g := .of_extents extents loc aligned
    obtain ⟨d, taken', third, values⟩ := Field.combination_ok second a b
    obtain rfl : d = h := Except.ok.inj (taken'.symm.trans taken)
    have like (j : Fin 3) : Field.Alike f (![f, g, d] j) := by
      fin_cases j
      · exact .refl f
      · exact second
      · exact third
    exact .of_values (fun i j => (like i).symm.trans (like j)) values

theorem relatedVectors_iff {u v w : Vector3 (Field ℝ)} :
    RelatedVectors (combinations a b) ![u, v, w] ↔ (u.scale a).add (v.scale b) = .ok w := by
  have component (axis : Axis) : (fun j => (![u, v, w] j).component axis) =
      ![u.component axis, v.component axis, w.component axis] := by
    funext j
    fin_cases j <;> rfl
  constructor
  · intro related
    have second : v.covariant = u.covariant := related.kind 1 0
    have third : w.covariant = u.covariant := related.kind 2 0
    have parts (axis : Axis) : ((u.component axis).scale a).add ((v.component axis).scale b) = .ok (w.component axis) :=
      relatedFields_iff.mp (component axis ▸ related.components axis)
    have one : (u.scale a).checkKind (v.scale b) "Add" = .ok () := if_neg (not_not.mpr second.symm)
    refine Outcome.bind_eq_ok.mpr ⟨(), one, Outcome.bind_eq_ok.mpr ⟨w.x, parts .x, Outcome.bind_eq_ok.mpr ⟨w.y, parts .y,
      Outcome.bind_eq_ok.mpr ⟨w.z, parts .z, ?_⟩⟩⟩⟩
    exact congrArg (fun kind => Except.ok (⟨w.x, w.y, w.z, kind⟩ : Vector3 (Field ℝ))) third.symm
  · intro taken
    obtain ⟨_, one, taken⟩ := Outcome.bind_eq_ok.mp taken
    obtain ⟨x, first, taken⟩ := Outcome.bind_eq_ok.mp taken
    obtain ⟨y, second, taken⟩ := Outcome.bind_eq_ok.mp taken
    obtain ⟨z, third, taken⟩ := Outcome.bind_eq_ok.mp taken
    cases taken
    have kind : u.covariant = v.covariant := by
      by_contra other
      exact nomatch (if_pos other).symm.trans one
    refine ⟨fun i j => ?_, fun axis => ?_⟩
    · fin_cases i <;> fin_cases j <;> simp [kind, Vector3.scale]
    · rw [component]
      cases axis with
      | x => exact relatedFields_iff.mpr first
      | y => exact relatedFields_iff.mpr second
      | z => exact relatedFields_iff.mpr third

end Combinations

/-- Whichever of three calls returns first, on every rank with all that was found by then the three return at once, without
the other ranks and always the same, and what the third returns is the sum of the others. -/
def RankM.Superposes {β γ : Type} (m : Mesh ℝ) (call : β → RankM ℝ γ) (sum : γ → γ → Outcome γ) (x y z : β) : Prop :=
  ∀ first ∈ [x, y, z], ∀ r : Rank ℝ, r.Unshifted m → ((call first).run.run r).Always fun ended => ∀ d, ended.1 = .ok d →
    ended.2.Unshifted m ∧ ended.2.Retains r ∧ ∃ u v w, sum u v = .ok w ∧ ∀ later : Rank ℝ, later.Retains ended.2 →
      later.Returns (call first) d ∧ later.Returns (call x) u ∧ later.Returns (call y) v ∧ later.Returns (call z) w

theorem RankM.superposes {β γ : Type} {m : Mesh ℝ} {call : β → RankM ℝ γ} {sum : γ → γ → Outcome γ} {x y z : β}
    (joint : Jointly m (fun bs => sum (bs 0) (bs 1) = .ok (bs 2)) fun j : Fin 3 => call (![x, y, z] j)) :
    Superposes m call sum x y z := by
  intro first member r kept
  obtain ⟨i, rfl⟩ : ∃ i : Fin 3, first = ![x, y, z] i := by
    simp only [List.mem_cons, List.not_mem_nil, or_false] at member
    rcases member with rfl | rfl | rfl
    · exact ⟨0, rfl⟩
    · exact ⟨1, rfl⟩
    · exact ⟨2, rfl⟩
  refine (joint i r kept r rfl).mono fun ended known d found => ?_
  obtain ⟨kept', retains, bs, rfl, total, again⟩ := known d found
  exact ⟨kept', retains, bs 0, bs 1, bs 2, total, fun later has =>
    ⟨again later has i, again later has 0, again later has 1, again later has 2⟩⟩

/-- Gradient, divergence and curl are linear at every place where they return, whether their coordinates have still to be
made or not. -/
theorem gradient_divergence_curl_linear {m : Mesh ℝ} (linear : m.LinearDefaults) (a b : ℝ) (place : Placement) :
    (∀ f g h : Field ℝ, (f.scale a).add (g.scale b) = .ok h →
      RankM.Superposes m (RankM.gradient · place) (fun u v => (u.scale a).add (v.scale b)) f g h) ∧
    ∀ u v w : Vector3 (Field ℝ), (u.scale a).add (v.scale b) = .ok w →
      RankM.Superposes m (RankM.divergence · place) (fun d e => (d.scale a).add (e.scale b)) u v w ∧
      RankM.Superposes m (RankM.curl · place) (fun d e => (d.scale a).add (e.scale b)) u v w := by
  have triple {β : Type} (bs : Fin 3 → β) : bs = ![bs 0, bs 1, bs 2] := by
    funext j
    fin_cases j <;> rfl
  have fields (bs : Fin 3 → Field ℝ) (related : RelatedFields (combinations a b) bs) :
      ((bs 0).scale a).add ((bs 1).scale b) = .ok (bs 2) := relatedFields_iff.mp (triple bs ▸ related)
  have vectors (bs : Fin 3 → Vector3 (Field ℝ)) (related : RelatedVectors (combinations a b) bs) :
      ((bs 0).scale a).add ((bs 1).scale b) = .ok (bs 2) := relatedVectors_iff.mp (triple bs ▸ related)
  constructor
  · intro f g h combined
    have joint := RankM.jointly_gradient linear (relatedFields_iff.mpr combined) place
    exact RankM.superposes (joint.mono vectors)
  · intro u v w combined
    have related := relatedVectors_iff.mpr combined
    exact ⟨RankM.superposes ((RankM.jointly_divergence linear related place).mono fields),
      RankM.superposes ((RankM.jointly_curl linear related place).mono vectors)⟩

/-- A gradient on a rank that knows a metric of ones, and the gradient of five times its field. -/
theorem gradient_divergence_curl_linear_unit : ∃ (m : Mesh ℝ) (r : Rank ℝ) (h : Field ℝ) (u w : Vector3 (Field ℝ)),
    Mesh.load GridSource.empty staggeredOptions ⟨0, 1⟩ = .ok (m, []) ∧ m.LinearDefaults ∧ r.Unshifted m ∧
      ((unitField .centre true).scale 2).add ((unitField .centre true).scale 3) = .ok h ∧
      r.Returns (RankM.gradient (unitField .centre true) .inherit) u ∧ r.Returns (RankM.gradient h .inherit) w ∧
      (u.scale 2).add (u.scale 3) = .ok w := by
  obtain ⟨m, loaded, -, -, extents⟩ := load_staggered
  have shaped (aligned : Bool) : (unitField .centre aligned).extents = m.extents := extents.symm
  obtain ⟨l, -, given⟩ := Layout.of_load loaded
  have bears : m.Bears (unitField .centre true) :=
    Layout.bears (given 0 (by decide) m [] loaded) (unitField_fits .centre true) (shaped true)
  have linear : m.LinearDefaults := by
    intro axis staggered k resolved
    obtain ⟨-, second, first⟩ := staggered_defaults loaded axis
    cases staggered with
    | true =>
      rw [Defaults.resolve, if_pos rfl, second] at resolved
      cases axis <;> cases resolved <;> rfl
    | false =>
      rw [Defaults.resolve, if_pos rfl, first] at resolved
      cases axis <;> cases resolved <;> rfl
  -- the metric is one at the cell centres
  let metric : Coordinates ℝ := .ofQuantities .centre 1 fun _ => unitField .centre false
  let r : Rank ℝ := { (Rank.ofMesh m []).keeping metric with transform := some .identity }
  have known : r.Knows m metric := ⟨rfl, by simp [Rank.Keeps, r, Rank.keeping, metric, Coordinates.ofQuantities], .inl rfl⟩
  have along (axis : Axis) : ∃ d, RankM.Answers m metric
      (RankM.alongAt axis (unitField .centre true) (.real .centre)) (.ok d) := by
    obtain ⟨k, made⟩ := Mesh.default_kernel loaded axis (show Kind.first ∈ _ by simp)
    have planned : m.plan axis (unitField .centre true).loc (.real .centre) = _ := m.plan_own axis .centre
    obtain ⟨d, derived, alike, -⟩ : ∃ d, m.derivative axis _ _ _ _ false = .ok d ∧ Field.Alike _ d ∧ _ :=
      Mesh.derivative_values bears planned rfl rfl made rfl
    have fits : d.Fits := alike.fits (unitField_fits .centre true)
    have size : (unitField .centre false).extents = d.extents := alike.extents.symm
    obtain ⟨e, divided, -⟩ := Field.dividedBy_values fits size alike.loc
    have rest : ∃ e, RankM.Answers m metric (RankM.scaled axis 1 d) (.ok e) := by
      unfold RankM.scaled
      rw [show d.loc = .centre from alike.loc]
      cases axis with
      | x | y =>
        refine ⟨e, RankM.answers_coordinates.bind (RankM.answers_ofOutcome ?_)⟩
        rw [Field.dividedRepeatedly_one]
        exact divided
      | z => exact ⟨_, RankM.answers_coordinates.bind (RankM.answers_pure _)⟩
    obtain ⟨e, scaled⟩ := rest
    refine ⟨e, RankM.answers_mesh.bind ?_⟩
    have frame : ¬ (axis = .y && !(unitField .centre true).aligned) = true := by simp [unitField]
    dsimp only
    rw [if_neg frame]
    exact (RankM.answers_ofOutcome derived).bind scaled
  choose d along using along
  have gradient : RankM.Answers m metric (RankM.gradient (unitField .centre true) .inherit)
      (.ok ⟨d .x, d .y, d .z, true⟩) := by
    change RankM.Answers m metric (RankM.gradientAt _ .inherit .inherit .inherit) _
    unfold RankM.gradientAt
    exact (along .x).bind ((along .y).bind ((along .z).bind (RankM.answers_pure _)))
  obtain ⟨r', path, known'⟩ := gradient r known
  obtain ⟨h, combined, -⟩ := Field.combination_ok (.refl (unitField .centre true)) 2 3
  have always := (gradient_divergence_curl_linear linear 2 3 .inherit).1 _ _ _ combined (unitField .centre true) (by simp) r
    ⟨rfl, .inl rfl⟩
  obtain ⟨kept, -, u, v, w, sum, again⟩ := always.at_path path _ rfl
  obtain ⟨-, first, second, third⟩ := again r' (.refl r')
  obtain rfl : v = u := by
    rw [Rank.Returns, first] at second
    cases second
    rfl
  exact ⟨m, r', h, v, w, loaded, linear, kept, combined, first, third, sum⟩

end HaloMesh
