import Mathlib.Analysis.Real.Sqrt
import HaloMesh.Proofs.DiagonalMetric
import HaloMesh.Proofs.IndexConversion
import HaloMesh.Proofs.OffAxisDerivative

/-! Coordinates that a mesh makes, and the vectors that they convert. Whatever coordinates were asked for before and after,
those made for a location have its metric, which is its own inverse's inverse in the guard cells as well. -/

namespace HaloMesh
open Transport Program

namespace RankM

variable {α : Type} [Scalar α]

/-- Asks the mesh for coordinates at some placements, one after the other. -/
def askAll : List Placement → RankM α Unit
  | [] => pure ()
  | place :: rest => do
    let _ ← coordinatesAt place
    askAll rest

/-- Makes new coordinates, and asks the mesh for others before and after. -/
def newAmong (earlier : List Placement) (place : Placement) (later : List Placement) : RankM α (Coordinates α) := do
  askAll earlier
  let c ← makeCoordinates place
  askAll later
  return c

end RankM

/-- One of some placements is this location. -/
def Placement.Among (places : List Placement) (loc : Location) : Prop := ∃ place ∈ places, place.orElse .centre = .real loc

/-- All ranks have coordinates for a location that they built together. -/
def AllHave (l : Layout ℝ) (meshes : Nat → Mesh ℝ) (ranks : Nat → Rank ℝ) (loc : Location) : Prop :=
  ∃ c, Built l meshes loc c ∧ ∀ i < l.count, (ranks i).coordinatesOf? loc = some (c i)

theorem AllHave.retained {l : Layout ℝ} {meshes : Nat → Mesh ℝ} {before after : Nat → Rank ℝ} {loc : Location}
    (had : AllHave l meshes before loc) (retained : ∀ i < l.count, (after i).Retains (before i)) :
    AllHave l meshes after loc := by
  obtain ⟨c, built, kept⟩ := had
  exact ⟨c, built, fun i inside => (retained i inside).coordinates loc (c i) (kept i inside)⟩

namespace ComesTo

variable {l : Layout ℝ} {meshes : Nat → Mesh ℝ} {before : Nat → Rank ℝ}
  (given : ∀ i < l.count, l.Assigns i (meshes i)) (room : ∀ i < l.count, (meshes i).HasRoom)
  (straight : l.shape.twistShift = false) (agreed : Agreed l meshes before)
include given room straight agreed

theorem asked (place : Placement) : ComesTo l meshes (fun _ => RankM.coordinatesAt place) before fun _ after =>
    Agreed l meshes after ∧ (∀ i < l.count, (after i).Retains (before i)) ∧
      ∃ loc, place.orElse .centre = .real loc ∧ AllHave l meshes after loc := by
  have began (i : Nat) (r : Rank ℝ) (start : r = before i) : r.Continues (before i) := start ▸ ⟨.refl r, rfl⟩
  refine ((coordinatesAt given room straight agreed place).leading fun i _ =>
    (RankM.leads_coordinatesAt place).narrow (began i)).mono fun c after known => ?_
  obtain ⟨⟨agreed', loc, located, built, kept⟩, continued⟩ := known
  exact ⟨agreed', fun i inside => (continued i inside).1.retains, loc, located, c, built, kept⟩

theorem askAll (places : List Placement) : ComesTo l meshes (fun _ => RankM.askAll places) before fun _ after =>
    Agreed l meshes after ∧ (∀ i < l.count, (after i).Retains (before i)) ∧
      ∀ loc, Placement.Among places loc → AllHave l meshes after loc := by
  induction places generalizing before with
  | nil =>
    refine here (b := fun _ => ()) (fun _ _ => rfl) ⟨agreed, fun i _ => .refl _, fun loc among => ?_⟩
    obtain ⟨place, member, -⟩ := among
    cases member
  | cons place rest ih =>
    refine bind (asked given room straight agreed place) fun _ middle ⟨agreed', first, site, located, had⟩ => ?_
    refine (ih agreed').mono fun _ after ⟨agreed'', second, others⟩ => ?_
    refine ⟨agreed'', fun i inside => (second i inside).trans (first i inside), fun loc among => ?_⟩
    obtain ⟨place', member, located'⟩ := among
    rcases List.mem_cons.mp member with rfl | member
    · cases located.symm.trans located'
      exact had.retained second
    · exact others loc ⟨place', member, located'⟩

/-- New coordinates belong to a location. The mesh has those that it was asked for, and they have the metric of theirs. -/
theorem newAmong (earlier : List Placement) (place : Placement) (later : List Placement) :
    ComesTo l meshes (fun _ => RankM.newAmong earlier place later) before fun c after =>
      Agreed l meshes after ∧ (∃ loc, place.orElse .centre = .real loc ∧ Built l meshes loc c) ∧
        ∀ loc, Placement.Among (earlier ++ later) loc → AllHave l meshes after loc := by
  refine bind (askAll given room straight agreed earlier) fun _ first ⟨agreed', _, had⟩ => ?_
  have made : ComesTo l meshes (fun _ => RankM.makeCoordinates place) first fun c after =>
      (Agreed l meshes after ∧ ∃ loc, place.orElse .centre = .real loc ∧ Built l meshes loc c) ∧
        ∀ i < l.count, (after i).Retains (first i) := by
    cases located : place.orElse .centre with
    | real loc =>
      have began (i : Nat) (r : Rank ℝ) (start : r = first i) : r.Continues (first i) := start ▸ ⟨.refl r, rfl⟩
      refine ((makeCoordinates given room straight agreed' located).leading fun i _ =>
        (RankM.leads_makeCoordinates located).narrow (began i)).mono fun c after ⟨⟨agreed, built⟩, continued⟩ => ?_
      exact ⟨⟨agreed, loc, rfl, built⟩, fun i inside => (continued i inside).1.retains⟩
    | inherit | shifted =>
      unfold RankM.makeCoordinates
      rw [located]
      exact throw _
  refine bind made fun c second ⟨⟨agreed'', built⟩, retained⟩ => ?_
  refine bind (askAll given room straight agreed'' later) fun _ third ⟨settled, retained', had'⟩ => ?_
  refine here (b := c) (fun _ _ => rfl) ⟨settled, built, fun loc among => ?_⟩
  obtain ⟨place', member, located⟩ := among
  rcases List.mem_append.mp member with member | member
  · exact ((had loc ⟨place', member, located⟩).retained retained).retained retained'
  · exact had' loc ⟨place', member, located⟩

end ComesTo

/-- All ranks have loaded a grid and make coordinates, and ask for others before and after. The symbols of the new coordinates
are compatible with their metric in the whole interior, whose inversion has made the two metrics inverse to each other. -/
theorem new_coordinates_compatible (source : GridSource ℝ) (options : Options ℝ) {count : Nat} {meshes : Nat → Mesh ℝ}
    {warnings : Nat → List String} {ranks after : Nat → Rank ℝ} {earlier later : List Placement} {place : Placement}
    {c : Nat → Coordinates ℝ} (loaded : ∀ i < count, Mesh.load source options ⟨i, count⟩ = .ok (meshes i, warnings i))
    (room : ∀ i < count, (meshes i).HasRoom) (straight : ∀ i < count, (meshes i).shape.twistShift = false)
    (fresh : ∀ i < count, (ranks i).mesh = meshes i ∧ (ranks i).coordinates = [])
    (made : EndsIn (together count ranks fun _ => RankM.newAmong earlier place later) fun i => (.ok (c i), after i))
    {i : Nat} (inside : i < count) : (c i).Compatible (meshes i) := by
  have some_ : 0 < count := by omega
  obtain ⟨l, rfl, assigned⟩ := Layout.of_load (loaded 0 some_)
  have given (j : Nat) (within : j < l.count) := assigned j within _ _ (loaded j within)
  have untwisted : l.shape.twistShift = false := Layout.shape_eq (given 0 some_) ▸ straight 0 some_
  obtain ⟨new, ended, ⟨-, ⟨site, -, built⟩, -⟩, same⟩ :=
    (ComesTo.newAmong given room untwisted (.fresh fresh) earlier place later).of_ends given room made
  exact (same i inside).1 ▸ built.compatible i inside

/-- Vectors of two kinds at a location on all ranks. They are the forms of each other under every metric that the ranks build
there. -/
structure Forms (l : Layout ℝ) (meshes : Nat → Mesh ℝ) (loc : Location) (covariant : Bool) (v w : Nat → Vector3 (Field ℝ)) :
    Prop where
  spans : ∀ i < l.count, (v i).Over (meshes i) loc ∧ (v i).covariant = !covariant
  spans' : ∀ i < l.count, (w i).Over (meshes i) loc ∧ (w i).covariant = covariant
  pairs : ∀ k, Built l meshes loc k → ∀ i < l.count, (k i).Pairs loc covariant (v i) (w i)

section Forms

variable {l : Layout ℝ} {meshes : Nat → Mesh ℝ} {loc : Location} {covariant : Bool} {v w : Nat → Vector3 (Field ℝ)}
  {c k : Nat → Coordinates ℝ} {ranks middle : Nat → Rank ℝ}

theorem Forms.exists_other (given : ∀ i < l.count, l.Assigns i (meshes i)) (room : ∀ i < l.count, (meshes i).HasRoom)
    (straight : l.shape.twistShift = false)
    (spans : ∀ i < l.count, (v i).Over (meshes i) loc ∧ (v i).covariant = !covariant) :
    ∃ w, Forms l meshes loc covariant v w := by
  by_cases any : ∃ g, Built l meshes loc g
  · obtain ⟨g, built⟩ := any
    have form (i : Nat) (inside : i < l.count) :
        ∃ w : Vector3 (Field ℝ), w.Over (meshes i) loc ∧ (g i).Pairs loc covariant (v i) w := by
      obtain ⟨shaped, kind⟩ := spans i inside
      exact Rank.exists_form (Rank.ofMesh (meshes i) []) (built.loc_eq inside) (built.dual given room straight i inside) shaped
        (fun f block => (Layout.holds (given i inside) (room i inside) block).fits) kind
    have : Nonempty (Vector3 (Field ℝ)) := ⟨v 0⟩
    choose! w shaped pairs using form
    refine ⟨w, spans, fun i inside => ⟨shaped i inside, (pairs i inside).kinds.2⟩, fun k builtK i inside => ?_⟩
    exact (pairs i inside).of_same (builtK.unique given room straight built i inside)
  · -- then no metric tells what the other form is
    have parts (i : Nat) (axis : Axis) : { v i with covariant }.component axis = (v i).component axis := by cases axis <;> rfl
    refine ⟨fun i => { v i with covariant }, spans, fun i inside => ⟨⟨fun axis => ?_, fun axis => ?_⟩, rfl⟩,
      fun k built => absurd ⟨k, built⟩ any⟩
    · rw [parts]
      exact (spans i inside).1.shaped axis
    · rw [parts]
      exact (spans i inside).1.loc axis

namespace Forms

variable (forms : Forms l meshes loc covariant v w)
include forms

theorem treatsAlike (built : Built l meshes loc k) {i : Nat} (inside : i < l.count) {r : Rank ℝ}
    (has : r.coordinatesOf? loc = some (k i)) : r.TreatsAlike (v i) (w i) :=
  (forms.pairs k built i inside).treatsAlike has (built.loc_eq inside) ⟨rfl, rfl⟩ (forms.spans i inside).1
    (forms.spans' i inside).1

variable (given : ∀ i < l.count, l.Assigns i (meshes i)) (room : ∀ i < l.count, (meshes i).HasRoom)
  (straight : l.shape.twistShift = false) (agreed : Agreed l meshes ranks)
include given room straight agreed

/-- Where the coordinates at hand are elsewhere, a vector comes back once the mesh was asked for those it needs. -/
theorem returns_asked (away : ∀ i < l.count, loc ≠ (c i).loc)
    (asked : EndsIn (together l.count ranks fun _ => RankM.coordinatesAt (.real loc)) fun i => (.ok (k i), middle i)) :
    EndsIn (together l.count ranks fun i => RankM.thereAndBack covariant (c i) (v i)) fun i => (.ok (w i, v i), middle i) := by
  have opening := ComesTo.coordinatesAt given room straight agreed (.real loc)
  obtain ⟨k', middle', ⟨-, loc', located, built, has⟩, equal⟩ := opening.of_ends given room asked
  cases located
  have holds (i : Nat) (inside : i < l.count) : (middle i).coordinatesOf? loc = some (k i) := by
    rw [← (equal i inside).1, ← (equal i inside).2]
    exact has i inside
  have opens (i : Nat) (inside : i < l.count) :
      RankM.Opens (RankM.coordinatesAt (.real loc)) (RankM.thereAndBack covariant (c i) (v i)) :=
    (RankM.opens_inForm (forms.spans i inside).1 (forms.spans i inside).2 (away i inside)).bind _
  have returns (i : Nat) (inside : i < l.count) :
      (middle i).Returns (RankM.thereAndBack covariant (c i) (v i)) (w i, v i) := by
    have pairs := forms.pairs k' built i inside
    rw [(equal i inside).1] at pairs
    refine pairs.thereAndBack ?_ ⟨rfl, rfl⟩
    rw [Rank.Uses, if_neg (away i inside)]
    exact holds i inside
  refine ((opening.together_of_ends given room asked).opened opens (fun i inside => Rank.returns_kept (holds i inside))
    (.alone fun i inside => ?_)).ends given room
  exact returns i inside ▸ .here _

/-- Operators end with the same results for both forms, also where the mesh has no coordinates for them yet. -/
theorem operators_endsIn {β : Type} (o : Nat → VectorOperator β) (d : Nat → β) (t : Nat → Rank ℝ) :
    EndsIn (together l.count ranks fun i => (o i).apply (v i)) (fun i => (.ok (d i), t i)) ↔
      EndsIn (together l.count ranks fun i => (o i).apply (w i)) fun i => (.ok (d i), t i) := by
  refine (ComesTo.coordinatesAt given room straight agreed (.real loc)).endsIn_iff given room agreed.own
    (fun i inside => ⟨(o i).opens (forms.spans i inside).1, (o i).opens (forms.spans' i inside).1⟩)
    (fun i inside => ⟨(o i).discreet _, (o i).discreet _⟩) ?_ d t
  intro k middle known i inside
  obtain ⟨-, loc', located, built, has⟩ := known
  cases located
  exact ⟨Rank.returns_kept (has i inside), forms.treatsAlike built inside (has i inside) (o i)⟩

end Forms

end Forms

/-- All ranks have loaded a grid and made new coordinates, and have asked for others before and after as they like. Then a
vector comes back from the form that they give it, in the guard cells as well, and the operators take this form for the
vector itself: they end with the same results in every interleaving. Where the vector is neither with the new coordinates nor
with some that the mesh has, the mesh is asked for those first. -/
theorem vector_forms_interchangeable (source : GridSource ℝ) (options : Options ℝ) {count : Nat} {meshes : Nat → Mesh ℝ}
    {warnings : Nat → List String} {ranks after : Nat → Rank ℝ} {earlier later : List Placement} {place : Placement}
    {c : Nat → Coordinates ℝ} (loaded : ∀ i < count, Mesh.load source options ⟨i, count⟩ = .ok (meshes i, warnings i))
    (room : ∀ i < count, (meshes i).HasRoom) (straight : ∀ i < count, (meshes i).shape.twistShift = false)
    (fresh : ∀ i < count, (ranks i).mesh = meshes i ∧ (ranks i).coordinates = [])
    (made : EndsIn (together count ranks fun _ => RankM.newAmong earlier place later) fun i => (.ok (c i), after i))
    {loc : Location} {covariant : Bool} {v : Nat → Vector3 (Field ℝ)}
    (spans : ∀ i < count, (v i).Over (meshes i) loc ∧ (v i).covariant = !covariant) :
    ∃ w : Nat → Vector3 (Field ℝ), (∀ i < count, (w i).Over (meshes i) loc ∧ (w i).covariant = covariant) ∧
      (place.orElse .centre = .real loc ∨ Placement.Among (earlier ++ later) loc → ∀ i < count, ∀ r : Rank ℝ,
        r.Retains (after i) → r.Returns (RankM.thereAndBack covariant (c i) (v i)) (w i, v i)) ∧
      (place.orElse .centre ≠ .real loc → ∀ (k : Nat → Coordinates ℝ) (middle : Nat → Rank ℝ),
        EndsIn (together count after fun _ => RankM.coordinatesAt (.real loc)) (fun i => (.ok (k i), middle i)) →
          EndsIn (together count after fun i => RankM.thereAndBack covariant (c i) (v i)) fun i => (.ok (w i, v i), middle i)) ∧
      (Placement.Among (earlier ++ later) loc → ∀ i < count, ∀ r : Rank ℝ, r.Retains (after i) → r.TreatsAlike (v i) (w i)) ∧
      ∀ {β : Type} (o : Nat → VectorOperator β) (d : Nat → β) (t : Nat → Rank ℝ),
        EndsIn (together count after fun i => (o i).apply (v i)) (fun i => (.ok (d i), t i)) ↔
          EndsIn (together count after fun i => (o i).apply (w i)) fun i => (.ok (d i), t i) := by
  rcases Nat.eq_zero_or_pos count with rfl | some_
  · have nothing {i : Nat} {p : Prop} (inside : i < 0) : p := absurd inside (Nat.not_lt_zero i)
    have ended {β : Type} (p : Nat → RankM ℝ β) (results : Nat → Outcome β × Rank ℝ) :
        EndsIn (together 0 after p) results := endsIn_empty results rfl rfl
    exact ⟨v, fun _ => nothing, fun _ _ => nothing, fun _ _ _ _ => ended _ _, fun _ _ => nothing,
      fun _ _ _ => iff_of_true (ended _ _) (ended _ _)⟩
  obtain ⟨l, rfl, assigned⟩ := Layout.of_load (loaded 0 some_)
  have given (j : Nat) (within : j < l.count) := assigned j within _ _ (loaded j within)
  have untwisted : l.shape.twistShift = false := Layout.shape_eq (given 0 some_) ▸ straight 0 some_
  obtain ⟨w, forms⟩ := Forms.exists_other given room untwisted spans
  obtain ⟨new, ended, ⟨agreed, ⟨site, located, built⟩, had⟩, same⟩ :=
    (ComesTo.newAmong given room untwisted (.fresh fresh) earlier place later).of_ends given room made
  have agreed : Agreed l meshes after := agreed.warned fun i inside => ⟨(ended i).warnings, (same i inside).2.symm⟩
  have there (i : Nat) (inside : i < l.count) : (c i).loc = site := (same i inside).1 ▸ built.loc_eq inside
  have elsewhere (away : place.orElse .centre ≠ .real loc) (i : Nat) (inside : i < l.count) : loc ≠ (c i).loc := fun own =>
    away (located.trans (congrArg _ (own.trans (there i inside)).symm))
  -- what a rank has where it was asked for coordinates
  have kept (among : Placement.Among (earlier ++ later) loc) : ∃ k, Built l meshes loc k ∧
      ∀ i < l.count, ∀ r : Rank ℝ, r.Retains (after i) → r.coordinatesOf? loc = some (k i) := by
    obtain ⟨k, builtK, has⟩ := had loc among
    refine ⟨k, builtK, fun i inside r retains => retains.coordinates loc (k i) ?_⟩
    rw [← (same i inside).2]
    exact has i inside
  refine ⟨w, forms.spans', fun reached i inside r retains => ?_,
    fun away k middle => forms.returns_asked given room untwisted agreed (elsewhere away),
    fun among i inside r retains => ?_, fun o d t => forms.operators_endsIn given room untwisted agreed o d t⟩
  · by_cases own : loc = (c i).loc
    · obtain rfl : loc = site := own.trans (there i inside)
      have pairs := forms.pairs new built i inside
      rw [(same i inside).1] at pairs
      exact pairs.thereAndBack (by rw [Rank.Uses, if_pos own]) ⟨rfl, rfl⟩
    · have away : place.orElse .centre ≠ .real loc := fun here =>
        own ((Placement.real.inj (here.symm.trans located)).trans (there i inside).symm)
      obtain ⟨k, builtK, has⟩ := kept (reached.resolve_left away)
      refine (forms.pairs k builtK i inside).thereAndBack ?_ ⟨rfl, rfl⟩
      rw [Rank.Uses, if_neg own]
      exact has i inside r retains
  · obtain ⟨k, builtK, has⟩ := kept among
    exact forms.treatsAlike builtK inside (has i inside r retains)

theorem vector_forms_interchangeable_stretched : ∃ (m : Mesh ℝ) (c : Nat → Coordinates ℝ) (after : Nat → Rank ℝ)
    (v w : Vector3 (Field ℝ)), Mesh.load (.diagonal 4 2 1) staggeredOptions ⟨0, 1⟩ = .ok (m, []) ∧
      EndsIn (together 1 (fun _ => Rank.ofMesh m []) fun _ => RankM.newAmong [] .inherit [.real .centre])
        (fun i => (.ok (c i), after i)) ∧
      v.covariant = false ∧ v.Over m .centre ∧ (∀ i x y z, (v.component i).HasPoint x y z →
        (v.component i).value x y z = m.globalX x + z) ∧
      (after 0).Returns (RankM.thereAndBack true (c 0) v) (w, v) ∧ (after 0).TreatsAlike v w := by
  obtain ⟨m, loaded, room, shape, -, source⟩ :=
    @load_staggered_of_silent (.diagonal 4 2 1) (by
      intro name member
      refine GridSource.hasVariable_diagonal ?_
      revert name
      decide)
  obtain ⟨l, count, assigned⟩ := Layout.of_load loaded
  have single : l.count = 1 := count
  have given : l.Assigns 0 m := assigned 0 (by decide) m [] loaded
  have kernels (axis : Axis) := Mesh.default_kernel loaded axis (show Kind.first ∈ _ by simp)
  have every {i : Nat} (inside : i < l.count) : i = 0 := by omega
  have moderate : Condition.Moderate 4 2 1 := ⟨by norm_num, by norm_num, by norm_num⟩
  have all : ∀ i < l.count, l.Assigns i m := fun i inside => every inside ▸ given
  let ranks : Nat → Rank ℝ := fun _ => Rank.ofMesh m []
  obtain ⟨c, made⟩ := Together.makeCentre_diagonal all (fun _ _ => room) (show ∀ i < l.count, (ranks i).mesh = m from fun _ _ => rfl)
    moderate (fun _ _ => source) fun _ _ => kernels
  obtain ⟨g, asked⟩ := Together.coordinatesAt_diagonal all (fun _ _ => room)
    (show ∀ i < l.count, (ranks i).mesh = m from fun _ _ => rfl) moderate (fun _ _ => source) (fun _ _ => kernels) fun _ _ => rfl
  have done {β : Type} (b : Nat → β) (at_ : Nat → Rank ℝ) : Together l (fun _ => m) (fun i => (pure (b i) : RankM ℝ β)) at_
      fun i => (.ok (b i), at_ i) := .alone fun i _ => .here _
  have ended : Together l (fun _ => m) (fun _ => RankM.newAmong [] .inherit [.real .centre]) ranks
      fun i => (.ok (c i), (ranks i).keeping (g i)) :=
    (done (fun _ => ()) ranks).bind <| made.bind <| (asked.bind (done (fun _ => ()) _)).bind (done c _)
  have ends := ended.ends all fun _ _ => room
  rw [single] at ends
  obtain ⟨f, block, here, -, values⟩ := Layout.exists_field given room .centre false fun x _ z => x + z
  let v : Vector3 (Field ℝ) := ⟨f, f, f, false⟩
  have parts (i : Axis) : v.component i = f := by cases i <;> rfl
  have spans : v.Over m .centre := ⟨fun i => (parts i).symm ▸ block, fun i => (parts i).symm ▸ here⟩
  have loads : ∀ i < 1, Mesh.load (.diagonal 4 2 1) staggeredOptions ⟨(i : Nat), (1 : Nat)⟩ = .ok (m, []) := by
    intro i inside
    obtain rfl : i = 0 := by omega
    exact loaded
  obtain ⟨w, -, back, -, treated, alike⟩ := vector_forms_interchangeable (.diagonal 4 2 1) staggeredOptions loads
    (fun _ _ => room) (fun _ _ => by rw [shape]; rfl) (fun _ _ => ⟨rfl, rfl⟩) ends
    (show ∀ i < 1, v.Over m .centre ∧ v.covariant = !true from fun _ _ => ⟨spans, rfl⟩)
  refine ⟨m, c, _, v, w 0, loaded, ends, rfl, spans, fun i x y z has => ?_, back (.inl rfl) 0 one_pos _ (.refl _),
    treated ⟨_, List.mem_singleton_self _, rfl⟩ 0 one_pos _ (.refl _)⟩
  rw [parts] at has ⊢
  exact values x y z has

end HaloMesh
