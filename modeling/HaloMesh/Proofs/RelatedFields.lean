import HaloMesh.Proofs.AlikeFields
import HaloMesh.Proofs.StencilMatrix
import Mathlib.Algebra.Module.Submodule.Basic

/-! Fields with linear relations between them. A family of fields of one layout has at every index values from a space of
admitted families, such as those whose last member is a fixed combination of the others. What weights its operands with
fixed numbers stays within the space, and as layouts decide alone whether it succeeds, it does so for all or none. -/

namespace HaloMesh

variable {ι : Type}

/-- Where one of some outcomes is a result, so are all of them, and the results are related. -/
def Outcome.Jointly {β : Type} (R : (ι → β) → Prop) (o : ι → Outcome β) : Prop :=
  ∀ i b, o i = .ok b → ∃ bs, (∀ j, o j = .ok (bs j)) ∧ R bs

namespace Outcome

variable {β γ : Type} {R R' : (ι → β) → Prop} {Q : (ι → γ) → Prop} {o : ι → Outcome β} {next : ι → β → Outcome γ}

theorem Jointly.bind (first : Jointly R o) (second : ∀ bs, R bs → Jointly Q fun j => next j (bs j)) :
    Jointly Q fun j => o j >>= next j := by
  intro i c taken
  obtain ⟨b, found, rest⟩ := Outcome.bind_eq_ok.mp taken
  obtain ⟨bs, all, related⟩ := first i b found
  obtain rfl : b = bs i := Except.ok.inj (found.symm.trans (all i))
  obtain ⟨cs, all', related'⟩ := second bs related i c rest
  exact ⟨cs, fun j => Outcome.bind_eq_ok.mpr ⟨bs j, all j, all' j⟩, related'⟩

theorem jointly_ok {bs : ι → β} (related : R bs) : Jointly R fun j => (.ok (bs j) : Outcome β) :=
  fun _ _ _ => ⟨bs, fun _ => rfl, related⟩

theorem jointly_error {e : ι → Failure} : Jointly R fun j => (.error (e j) : Outcome β) := fun _ _ failed => nomatch failed

/-- What is the same for all members of a family. -/
def Constant (bs : ι → β) : Prop := ∃ b, bs = fun _ => b

theorem jointly_constant (outcome : Outcome β) : Jointly Constant fun _ : ι => outcome :=
  fun _ b found => ⟨fun _ => b, fun _ => found, b, rfl⟩

theorem Jointly.of_same {o : ι → Outcome β} (same : ∀ i j, o i = o j) : Jointly Constant o :=
  fun i b found => ⟨fun _ => b, fun j => (same j i).trans found, b, rfl⟩

/-- Of the members of a family one may be taken as the first. -/
theorem Jointly.of_member (each : ι → Jointly R o) : Jointly R o := fun i => each i i

/-- A step without an operand from the family succeeds for all members or for none. -/
theorem Jointly.after (outcome : Outcome β) (second : ∀ b, outcome = .ok b → Jointly Q fun j => next j b) :
    Jointly Q fun j => outcome >>= next j := by
  intro i c taken
  obtain ⟨b, found, rest⟩ := Outcome.bind_eq_ok.mp taken
  obtain ⟨cs, all, related⟩ := second b found i c rest
  exact ⟨cs, fun j => Outcome.bind_eq_ok.mpr ⟨b, found, all j⟩, related⟩

theorem jointly_foldlM {κ : Type} {step : ι → β → κ → Outcome β} {items : List κ}
    (each : ∀ item bs, R bs → Jointly R fun j => step j (bs j) item) {bs : ι → β} (start : R bs) :
    Jointly R fun j => items.foldlM (step j) (bs j) := by
  induction items generalizing bs with
  | nil => exact jointly_ok start
  | cons item rest ih =>
    simp only [List.foldlM_cons]
    exact (each item bs start).bind fun _ related => ih related

end Outcome

variable (S : Submodule ℝ (ι → ℝ))

/-- Arrays of one size with related values at each index. -/
structure RelatedArrays (a : ι → Array ℝ) : Prop where
  size : ∀ i j, (a i).size = (a j).size
  values : ∀ n : Nat, (fun j => (a j)[n]?.getD 0) ∈ S

/-- No values, or related ones. -/
def RelatedOptions (o : ι → Option ℝ) : Prop := (∀ j, o j = none) ∨ ∃ v ∈ S, ∀ j, o j = some (v j)

structure RelatedWindows (w : ι → Window ℝ) : Prop where
  mm : (fun j => (w j).mm) ∈ S
  m : (fun j => (w j).m) ∈ S
  c : (fun j => (w j).c) ∈ S
  p : (fun j => (w j).p) ∈ S
  pp : (fun j => (w j).pp) ∈ S

/-- Fields of one layout with related values at each index. -/
structure RelatedFields (f : ι → Field ℝ) : Prop where
  alike : ∀ i j, Field.Alike (f i) (f j)
  arrays : RelatedArrays S fun j => (f j).data

variable {S} {a b : ι → Array ℝ} {f g : ι → Field ℝ}

namespace RelatedArrays

theorem elementAt (related : RelatedArrays S a) (n : Int) :
    Outcome.Jointly (· ∈ S) fun j => HaloMesh.elementAt (a j) n := by
  intro i v found
  unfold HaloMesh.elementAt at found ⊢
  dsimp only at found ⊢
  split at found
  next low =>
    cases inside : (a i)[n.toNat]? with
    | none =>
      rw [inside] at found
      cases found
    | some _ =>
      have within (j : ι) : n.toNat < (a j).size := related.size i j ▸ (Array.getElem?_eq_some_iff.mp inside).1
      refine ⟨_, fun j => ?_, related.values n.toNat⟩
      rw [if_pos low, Array.getElem?_eq_getElem (within j)]
      rfl
  next => cases found

theorem writeAt (related : RelatedArrays S a) {v : ι → ℝ} (member : v ∈ S) (n : Int) :
    Outcome.Jointly (RelatedArrays S) fun j => Field.writeAt (a j) n (v j) := by
  intro i b written
  have inside : 0 ≤ n ∧ n < (a i).size := by
    by_contra outside
    exact nomatch (if_neg outside).symm.trans written
  refine ⟨fun j => (a j).setIfInBounds n.toNat (v j), fun j => if_pos (related.size i j ▸ inside), fun i j => ?_, fun k => ?_⟩
  · simpa only [Array.size_setIfInBounds] using related.size i j
  · by_cases here : n.toNat = k
    · subst here
      have set (j : ι) : ((a j).setIfInBounds n.toNat (v j))[n.toNat]?.getD 0 = v j := by
        have : n.toNat < (a j).size := by
          have := related.size i j
          omega
        simp [this]
      simpa only [set] using member
    · simpa only [Array.getElem?_setIfInBounds_ne here] using related.values k

theorem map (related : RelatedArrays S a) (s : ℝ) : RelatedArrays S fun j => (a j).map fun v => s * v := by
  refine ⟨fun i j => by simpa only [Array.size_map] using related.size i j, fun n => ?_⟩
  have scaled (j : ι) : ((a j).map fun v => s * v)[n]?.getD 0 = s * (a j)[n]?.getD 0 := by
    cases found : (a j)[n]? <;> simp [found]
  simp only [scaled]
  exact S.smul_mem s (related.values n)

theorem zipWith (first : ∀ i j, (a i).size = (a j).size) (second : ∀ i j, (b i).size = (b j).size) {h : ℝ → ℝ → ℝ}
    (closed : ∀ n : Nat, (fun j => h ((a j)[n]?.getD 0) ((b j)[n]?.getD 0)) ∈ S) :
    RelatedArrays S fun j => Array.zipWith h (a j) (b j) := by
  refine ⟨fun i j => by rw [Array.size_zipWith, Array.size_zipWith, first i j, second i j], fun n => ?_⟩
  by_cases some_ : ∃ i, n < (a i).size ∧ n < (b i).size
  · obtain ⟨i, left, right⟩ := some_
    have value (j : ι) : (Array.zipWith h (a j) (b j))[n]?.getD 0 = h ((a j)[n]?.getD 0) ((b j)[n]?.getD 0) := by
      have left' : n < (a j).size := first i j ▸ left
      have right' : n < (b j).size := second i j ▸ right
      simp [left', right']
    simpa only [value] using closed n
  · have none (j : ι) : (Array.zipWith h (a j) (b j))[n]?.getD 0 = 0 := by
      rw [Array.getElem?_eq_none (by rw [Array.size_zipWith]; have := not_exists.mp some_ j; omega)]
      rfl
    simp only [none]
    exact S.zero_mem

end RelatedArrays

section Lines

variable {get : ι → Int → Outcome ℝ} (each : ∀ i, Outcome.Jointly (· ∈ S) fun j => get j i)
include each

theorem jointly_gather (i : Int) (o : Offset) (width : Int) :
    Outcome.Jointly (RelatedWindows S) fun j => Window.gather (get j) i o width := by
  have zero : (fun _ : ι => @OfNat.ofNat ℝ 0 (Scalar.instOfNatScalar 0)) ∈ S := by
    rw [Exact.zero_eq]
    exact S.zero_mem
  unfold Window.gather Window.gatherAround
  refine (each i).bind fun c atC => ?_
  split
  · exact Outcome.jointly_ok ⟨zero, zero, atC, zero, zero⟩
  refine (each _).bind fun below atM => (each _).bind fun above atP => ?_
  split
  · exact Outcome.jointly_ok ⟨zero, atM, atC, atP, zero⟩
  refine (each _).bind fun below2 atMM => (each _).bind fun above2 atPP => ?_
  exact Outcome.jointly_ok ⟨atMM, atM, atC, atP, atPP⟩

/-- A value midway between points of a line is there for all members of a family or for none. -/
theorem jointly_between (periodic : Bool) (n a : Int) :
    Outcome.Jointly (RelatedOptions S) fun j => Field.between (get j) periodic n a := by
  unfold Field.between
  split
  · refine (each _).bind fun p atP => (each _).bind fun q atQ => (each _).bind fun r atR => (each _).bind fun s atS => ?_
    refine Outcome.jointly_ok (.inr ⟨fun j => Kernel.midpoint4 (p j) (q j) (r j) (s j), ?_, fun _ => rfl⟩)
    have weighted : (fun j => Kernel.midpoint4 (p j) (q j) (r j) (s j)) =
        (9 / 16 : ℝ) • (q + r) - (1 / 16 : ℝ) • (p + s) := by
      funext j
      simp only [Exact.midpoint4_eq, Pi.sub_apply, Pi.smul_apply, Pi.add_apply, smul_eq_mul]
      ring
    rw [weighted]
    exact S.sub_mem (S.smul_mem _ (S.add_mem atQ atR)) (S.smul_mem _ (S.add_mem atP atS))
  split
  · refine (each _).bind fun q atQ => (each _).bind fun r atR => ?_
    refine Outcome.jointly_ok (.inr ⟨_, ?_, fun _ => rfl⟩)
    exact S.smul_mem _ (S.add_mem atQ atR)
  · exact Outcome.jointly_ok (.inl fun _ => rfl)

end Lines

/-- A linear kernel weights its window. -/
theorem jointly_apply {family : Family} {method : Method} {k : Kernel ℝ} (made : Kernel.of? family method = some k)
    (linear : k.isLinear = true) {w : ι → Window ℝ} (related : RelatedWindows S w) :
    Outcome.Jointly (· ∈ S) fun j => k.apply (w j) (w j) := by
  obtain ⟨formula, given, a, b, c, d, e, weighs⟩ := Kernel.of?_weighs made linear
  have applied (j : ι) : k.apply (w j) (w j) =
      .ok (a * (w j).mm + b * (w j).m + c * (w j).c + d * (w j).p + e * (w j).pp) := by
    rw [Kernel.apply, given, ← weighs.sum]
  simp only [applied]
  exact Outcome.jointly_ok (S.add_mem (S.add_mem (S.add_mem (S.add_mem (S.smul_mem a related.mm) (S.smul_mem b related.m))
    (S.smul_mem c related.c)) (S.smul_mem d related.p)) (S.smul_mem e related.pp))

theorem jointly_sweep {value : ι → Int → Int → Outcome (Option ℝ)}
    (each : ∀ base i, Outcome.Jointly (RelatedOptions S) fun j => value j base i) (stride : Int) (lines : List LineSpan)
    (start : RelatedArrays S a) : Outcome.Jointly (RelatedArrays S) fun j => sweep stride lines (value j) (a j) := by
  unfold sweep
  refine Outcome.jointly_foldlM (fun point data related => (each point.1 point.2).bind fun o found => ?_) start
  rcases found with none | ⟨v, member, some_⟩
  · simp only [none]
    exact Outcome.jointly_ok related
  · simp only [some_]
    exact related.writeAt member _

namespace RelatedFields

theorem valueAt (related : RelatedFields S f) (n : Nat) : (fun j => (f j).valueAt n) ∈ S := by
  simp only [Field.valueAt, Exact.zero_eq]
  exact related.arrays.values n

theorem of_values (alike : ∀ i j, Field.Alike (f i) (f j)) (values : ∀ n, (fun j => (f j).valueAt n) ∈ S) :
    RelatedFields S f := by
  refine ⟨alike, fun i j => (alike j i).size, fun n => ?_⟩
  have value := values n
  simp only [Field.valueAt, Exact.zero_eq] at value
  exact value

theorem withData (alike : ∀ i j, Field.Alike (f i) (f j)) (arrays : RelatedArrays S a) :
    Outcome.Jointly (RelatedFields S) fun j => (f j).withData (a j) := by
  intro i d taken
  have size : (a i).size = (f i).data.size := by
    by_contra other
    exact nomatch (dif_neg other).symm.trans taken
  have sizes (j : ι) : (a j).size = (f j).data.size := by rw [arrays.size j i, size, (alike i j).size]
  choose d' made using fun j => Field.withData_of_size (sizes j)
  refine ⟨d', made, fun i j => ?_, ?_⟩
  · exact (Field.withData_ok (made i)).2.symm.trans ((alike i j).trans (Field.withData_ok (made j)).2)
  · simpa only [fun j => (Field.withData_ok (made j)).1] using arrays

theorem zeroLike (alike : ∀ i j, Field.Alike (f i) (f j)) : RelatedFields S fun j => (f j).zeroLike := by
  refine ⟨fun i j => (Field.alike_zeroLike _).symm.trans ((alike i j).trans (Field.alike_zeroLike _)), ?_, fun n => ?_⟩
  · intro i j
    rw [(Field.alike_zeroLike (f i)).size, (Field.alike_zeroLike (f j)).size, (alike j i).size]
  · have zero (j : ι) : (f j).zeroLike.data[n]?.getD 0 = 0 := by
      change ((f j).data.map fun _ => _)[n]?.getD 0 = 0
      rw [Array.getElem?_map]
      cases (f j).data[n]? with
      | none => rfl
      | some v => exact Exact.zero_eq
    simp only [zero]
    exact S.zero_mem

theorem retag (related : RelatedFields S f) (loc : Location) : RelatedFields S fun j => (f j).retag loc :=
  ⟨fun i j => (related.alike i j).retag loc, related.arrays⟩

theorem setAligned (related : RelatedFields S f) (aligned : Bool) : RelatedFields S fun j => (f j).setAligned aligned := by
  refine ⟨fun i j => ?_, related.arrays⟩
  have alike := related.alike i j
  exact ⟨alike.nx, alike.ny, alike.nz, alike.size, alike.loc, rfl⟩

theorem scale (related : RelatedFields S f) (s : ℝ) : RelatedFields S fun j => (f j).scale s := by
  refine ⟨fun i j => ?_, related.arrays.map s⟩
  have alike := related.alike i j
  exact ⟨alike.nx, alike.ny, alike.nz, ((related.arrays.map s).size j i), alike.loc, alike.aligned⟩

theorem tabulate (alike : ∀ i j, Field.Alike (f i) (f j)) {t : ι → Nat → ℝ} (values : ∀ n, (fun j => t j n) ∈ S) :
    RelatedFields S fun j => (f j).tabulate (t j) := by
  have size (j : ι) : ((f j).tabulate (t j)).data.size = (f j).data.size := Array.size_ofFn
  refine ⟨fun i j => ?_, fun i j => by rw [size, size, (alike i j).size], fun n => ?_⟩
  · have same := alike i j
    exact ⟨same.nx, same.ny, same.nz, by rw [size, size, same.size], same.loc, same.aligned⟩
  · by_cases some_ : ∃ i, n < (f i).data.size
    · obtain ⟨i, inside⟩ := some_
      have value (j : ι) : ((f j).tabulate (t j)).data[n]?.getD 0 = t j n := by
        have inside' : n < (f j).data.size := (alike i j).size.symm ▸ inside
        rw [Array.getElem?_eq_getElem (by rwa [size])]
        exact Array.getElem_ofFn ..
      simpa only [value] using values n
    · have value (j : ι) : ((f j).tabulate (t j)).data[n]?.getD 0 = 0 := by
        rw [Array.getElem?_eq_none (by rw [size]; exact not_lt.mp (not_exists.mp some_ j))]
        rfl
      simp only [value]
      exact S.zero_mem

theorem combine (first : ∀ i j, Field.Alike (f i) (f j)) (second : ∀ i j, Field.Alike (g i) (g j)) {h : ℝ → ℝ → ℝ}
    (closed : ∀ n, (fun j => h ((f j).valueAt n) ((g j).valueAt n)) ∈ S) (op : String) :
    Outcome.Jointly (RelatedFields S) fun j => (f j).combine (g j) op h := by
  refine (Outcome.Jointly.of_same fun i j => (first i j).checkCompatible (second i j) op).bind fun _ _ => withData first ?_
  refine .zipWith (fun i j => (first j i).size) (fun i j => (second j i).size) fun n => ?_
  simpa only [Field.valueAt, Exact.zero_eq] using closed n

theorem add (first : RelatedFields S f) (second : RelatedFields S g) :
    Outcome.Jointly (RelatedFields S) fun j => (f j).add (g j) :=
  combine first.alike second.alike (fun n => S.add_mem (first.valueAt n) (second.valueAt n)) "Add"

theorem sub (first : RelatedFields S f) (second : RelatedFields S g) :
    Outcome.Jointly (RelatedFields S) fun j => (f j).sub (g j) :=
  combine first.alike second.alike (fun n => S.sub_mem (first.valueAt n) (second.valueAt n)) "Sub"

theorem mul (related : RelatedFields S f) (weight : Field ℝ) :
    Outcome.Jointly (RelatedFields S) fun j => weight.mul (f j) :=
  combine (fun _ _ => .refl weight) related.alike (fun n => S.smul_mem (weight.valueAt n) (related.valueAt n)) "Mul"

theorem dividedBy (related : RelatedFields S f) (metric : Field ℝ) :
    Outcome.Jointly (RelatedFields S) fun j => (f j).dividedBy metric := by
  refine .of_member fun i => ?_
  unfold Field.dividedBy
  simp only [fun j => (related.alike i j).sameShape metric, fun j => (related.alike i j).loc]
  split
  · exact Outcome.jointly_error
  · refine withData related.alike (.zipWith (fun i j => (related.alike j i).size) (fun _ _ => rfl) fun n => ?_)
    have value (j : ι) : (f j).data[n]?.getD 0 / metric.data[n]?.getD 0 =
        (metric.data[n]?.getD 0)⁻¹ * (f j).data[n]?.getD 0 := div_eq_inv_mul ..
    simp only [value]
    exact S.smul_mem _ (related.arrays.values n)

theorem halfStep (related : RelatedFields S f) (axis : Axis) (toLow : Bool) (target : Location) :
    Outcome.Jointly (RelatedFields S) fun j => (f j).halfStep axis toLow target := by
  refine .of_member fun i => ?_
  have size (j : ι) : (f j).axisSize axis = (f i).axisSize axis := (related.alike i j).axisSize
  unfold Field.halfStep
  simp only [size, fun j => (related.alike i j).stride axis,
    fun j => (related.alike i j).lineBases axis, fun j => (related.alike i j).checkFits]
  split
  · exact Outcome.jointly_ok (related.retag target)
  refine .after _ fun _ _ => Outcome.Jointly.bind (R := RelatedArrays S) ?_ fun data arrays => ?_
  · refine jointly_sweep (fun base n => jointly_between (fun k => ?_) _ _ _) _ _ related.arrays
    exact related.arrays.elementAt _
  · exact withData (related.retag target).alike arrays

theorem interpolate (related : RelatedFields S f) (place : Placement) :
    Outcome.Jointly (RelatedFields S) fun j => (f j).interpolate place := by
  cases place with
  | inherit => exact Outcome.jointly_ok related
  | shifted => exact Outcome.jointly_error
  | real target =>
    refine .of_member fun i => ?_
    have route (j : ι) : (f j).loc.route target = (f i).loc.route target := by rw [(related.alike i j).loc]
    simp only [Field.interpolate_eq, route]
    exact Outcome.jointly_foldlM (fun step g moved => moved.halfStep step.axis step.toLow step.target) related

end RelatedFields

/-! Derivatives by linear kernels. -/

theorem Kernel.of?_linear {family : Family} {method : Method} {k : Kernel ℝ} (made : of? family method = some k)
    (linear : k.isLinear = true) : k.isSpectral = false := by
  obtain ⟨kind, staggered⟩ := family
  cases kind <;> cases staggered <;> cases method <;> simp [of?] at made <;> subst made <;> simp [isSpectral] at linear ⊢

/-- The default first derivatives weight the points around their own. -/
def Mesh.LinearDefaults (m : Mesh ℝ) : Prop :=
  ∀ axis staggered (k : Kernel ℝ), m.defaults.resolve axis ⟨.first, staggered⟩ .standard = .ok k → k.isLinear = true

namespace Mesh

variable {m : Mesh ℝ} {axis : Axis}

theorem LinearDefaults.kernel (linear : m.LinearDefaults) {staggered : Bool} {k : Kernel ℝ}
    (made : m.kernel axis ⟨.first, staggered⟩ .standard = .ok k) : k.isLinear = true := by
  obtain ⟨k', resolved, checked⟩ := Outcome.bind_eq_ok.mp made
  obtain rfl : k' = k := by
    split at checked
    · cases checked
    · exact Except.ok.inj checked
  cases found : m.defaults.resolve (α := ℝ) axis ⟨.first, staggered⟩ .standard with
  | error e =>
    rw [found] at resolved
    cases resolved
  | ok k'' =>
    rw [found] at resolved
    cases resolved
    exact linear axis staggered _ found

theorem jointly_differenced {family : Family} {method : Method} {k : Kernel ℝ} (made : Kernel.of? family method = some k)
    (linear : k.isLinear = true) (related : RelatedFields S f) (o : Offset) (inc : Bool) :
    Outcome.Jointly (RelatedFields S) fun j => m.differenced axis .first k o (f j) inc := by
  refine .of_member fun i => ?_
  simp only [differenced, fun j => (related.alike i j).checkLines m axis inc, fun j => (related.alike i j).lineReader m axis,
    fun j => (related.alike i j).evaluationLines m axis inc, Kernel.of?_linear made linear]
  refine .after _ fun _ _ => ?_
  refine Outcome.Jointly.bind (R := RelatedArrays S) ?_ fun data arrays => RelatedFields.withData related.alike arrays
  refine jointly_sweep (fun base n => ?_) _ _ (RelatedFields.zeroLike related.alike).arrays
  refine (jointly_gather (fun k => related.arrays.elementAt _) n o k.width).bind fun w windows => ?_
  refine (jointly_apply made linear windows).bind fun v member => ?_
  exact Outcome.jointly_ok (.inr ⟨v, member, fun _ => rfl⟩)

theorem jointly_derivative (linear : m.LinearDefaults) (related : RelatedFields S f) (place : Placement) (inc : Bool) :
    Outcome.Jointly (RelatedFields S) fun j => m.derivative axis .first (f j) place .standard inc := by
  refine .of_member fun i => ?_
  have source (j : ι) : m.plan axis (f j).loc place = m.plan axis (f i).loc place := by rw [(related.alike i j).loc]
  cases planned : m.plan axis (f i).loc place with
  | error e =>
    have refused (j : ι) : m.derivative axis .first (f j) place .standard inc = .error e := by
      unfold derivative
      rw [source, planned]
      rfl
    simp only [refused]
    exact Outcome.jointly_error
  | ok p =>
    by_cases single : m.axisSize axis = 1
    · simp only [derivative_single ((source _).trans planned) single]
      exact Outcome.jointly_ok ((RelatedFields.zeroLike related.alike).retag p.output)
    · simp only [derivative_bind ((source _).trans planned) single]
      refine .after _ fun k made => ?_
      have rest {g : ι → Field ℝ} (inputs : RelatedFields S g) : Outcome.Jointly (RelatedFields S) fun j =>
          m.differenced axis .first k p.offset (g j) inc >>= settle p := by
        refine (jointly_differenced (kernel_ok made).1 (linear.kernel made) inputs p.offset inc).bind fun d differenced => ?_
        have placed : RelatedFields S fun j => if p.staggered then (d j).retag p.evaluatedAt else d j := by
          split
          · exact differenced.retag _
          · exact differenced
        unfold settle
        cases p.resultTo with
        | none => exact Outcome.jointly_ok placed
        | some loc => exact placed.interpolate _
      cases p.inputTo with
      | none => exact rest related
      | some loc => exact (related.interpolate _).bind fun g moved => rest moved

end Mesh

end HaloMesh
