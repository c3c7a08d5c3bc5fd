import Mathlib.Analysis.Real.Sqrt
import HaloMesh.Proofs.BuiltMetric

/-! Coordinates that all ranks ask for. The first request for a location builds them on all ranks, and every later one finds
them, so that all ranks keep parts of the one metric of a location. -/

namespace HaloMesh
open Transport Program

section Shapes

variable {α : Type} [Scalar α] {c c' : Coordinates α} {m : Mesh α}

theorem Coordinates.laplacianAlong_extents {k : Axis} {f : Field α} (taken : c.laplacianAlong m k = .ok f) :
    f.extents = c.jacobian.extents := by
  unfold laplacianAlong at taken
  obtain ⟨x, -, taken⟩ := Outcome.bind_eq_ok.mp taken
  obtain ⟨y, -, taken⟩ := Outcome.bind_eq_ok.mp taken
  obtain ⟨sum, -, divided⟩ := Outcome.bind_eq_ok.mp taken
  obtain ⟨alike, shaped, -⟩ := Field.combine_ok divided
  exact alike.extents.trans shaped.symm

theorem Coordinates.withGeometry_extents (made : c.withGeometry m = .ok c') {e : Extents}
    (shaped : ∀ q ∈ Quantity.metric, (c.get q).extents = e) : ∀ q ∈ Quantity.geometry, (c'.get q).extents = e := by
  intro q member
  obtain ⟨d, -, made⟩ := Outcome.bind_eq_ok.mp made
  obtain ⟨x, alongX, made⟩ := Outcome.bind_eq_ok.mp made
  obtain ⟨y, alongY, made⟩ := Outcome.bind_eq_ok.mp made
  obtain ⟨z, alongZ, made⟩ := Outcome.bind_eq_ok.mp made
  cases made
  have laplacian {k : Axis} {f : Field α} (taken : c.laplacianAlong m k = .ok f) : f.extents = e :=
    (laplacianAlong_extents taken).trans (shaped .jacobian (by decide))
  cases q with
  | symbol k p =>
    have like (k : Axis) : ((c.symbolsAlong d k).get p).extents = e := by
      rw [symbolsAlong, Symmetric.get_ofFunction]
      exact shaped (.contravariant .p11) (by decide)
    cases k
    · exact like .x
    · exact like .y
    · exact like .z
  | laplacian k =>
    cases k
    · exact laplacian alongX
    · exact laplacian alongY
    · exact laplacian alongZ
  | contravariant p | covariant p => exact absurd member (by cases p <;> decide)
  | _ => exact absurd member (by decide)

end Shapes

section Congr

variable {α : Type} [Scalar α] {l : Layout α} {meshes : Nat → Mesh α} {sides : List Side} {before after after' : Nat → Field α}

theorem Passed.congr (passed : Passed l meshes sides before after) (same : ∀ i < l.count, after i = after' i) :
    Passed l meshes sides before after' where
  alike i inside := same i inside ▸ passed.alike i inside
  kept i inside := same i inside ▸ passed.kept i inside
  filled i inside := same i inside ▸ passed.filled i inside

theorem Exchanged.congr (exchanged : Exchanged l meshes before after) (same : ∀ i < l.count, after i = after' i) :
    Exchanged l meshes before after' := by
  obtain ⟨middle, first, second⟩ := exchanged
  exact ⟨middle, first, second.congr same⟩

end Congr

namespace ComesTo

variable {α β : Type} [Scalar α] {l : Layout α} {meshes : Nat → Mesh α} {before : Nat → Rank α}

theorem of_tells {c : Nat → RankM α β} {P : Nat → β → Prop} (own : ∀ i < l.count, (before i).mesh = meshes i)
    (tells : ∀ i < l.count, RankM.Tells (meshes i) (c i) (P i)) : ComesTo l meshes c before fun b after =>
      ∀ i < l.count, P i (b i) ∧ ∃ warnings, after i = { before i with warnings } := by
  refine alone (P := fun i b r => P i b ∧ ∃ warnings, r = { before i with warnings }) fun i inside => ?_
  obtain ⟨outcome, warnings, ran, good⟩ := tells i inside (before i) (own i inside)
  exact ⟨outcome, _, ran, fun b found => ⟨good b found, warnings, rfl⟩⟩

/-- What every rank comes to at once. -/
theorem here {b : Nat → β} {c : Nat → RankM α β} {after : Nat → Rank α} {Good : (Nat → β) → (Nat → Rank α) → Prop}
    (runs : ∀ i < l.count, (c i).run.run (before i) = finished (.ok (b i), after i)) (good : Good b after) :
    ComesTo l meshes c before Good :=
  .of_together (.alone fun i inside => runs i inside ▸ .here _) good

end ComesTo

namespace ComesTo

variable {l : Layout ℝ} {meshes : Nat → Mesh ℝ} {before : Nat → Rank ℝ}
  (given : ∀ i < l.count, l.Assigns i (meshes i)) (room : ∀ i < l.count, (meshes i).HasRoom)
include given room

theorem exchangedGeometry (own : ∀ i < l.count, (before i).mesh = meshes i) {raw : Nat → Coordinates ℝ}
    (shaped : ∀ i < l.count, ∀ q ∈ Quantity.metric, ((raw i).get q).extents = (meshes i).extents) :
    ComesTo l meshes (fun i => RankM.computeGeometry (fun _ => pure ()) (raw i)) before fun c after =>
      (∀ i < l.count, after i = before i) ∧ Exchanges l meshes raw c := by
  refine bind (P := fun b after => meshes = b ∧ before = after) (here (fun i inside => by rw [← own i inside]; rfl)
    ⟨rfl, rfl⟩) fun _ _ ⟨same, start⟩ => ?_
  subst same start
  obtain ⟨first, exchanged, tags, -, metric⟩ :=
    Together.exchangedQuantities given room own Quantity.metric (by decide) (by decide) shaped
  refine bind (P := fun b after => first = b ∧ before = after) (.of_together (exchanged.labelled _) ⟨rfl, rfl⟩)
    fun _ _ ⟨same, start⟩ => ?_
  subst same start
  refine bind (P := fun _ after => before = after) (here (b := fun _ => ()) (fun _ _ => rfl) rfl) fun _ _ start => ?_
  subst start
  refine bind (ofOutcome _) fun _ checked passed => bind (ofOutcome _) fun second derived made => ?_
  have still (i : Nat) (inside : i < l.count) : derived i = before i := (made i inside).2.trans (passed i inside).2
  refine bind (P := fun _ after => derived = after) (here (b := fun _ => ()) (fun _ _ => rfl) rfl) fun _ _ start => ?_
  subst start
  have shaped' (i : Nat) (inside : i < l.count) := Coordinates.withGeometry_extents (made i inside).1 fun q member =>
    ((metric q member).alike inside).extents.trans (shaped i inside q member)
  obtain ⟨third, exchanged', tags', others, -⟩ := Together.exchangedQuantities given room
    (fun i inside => (still i inside) ▸ own i inside) Quantity.geometry (by decide) (by decide) shaped'
  refine bind (P := fun b after => third = b ∧ derived = after) (.of_together (exchanged'.labelled _) ⟨rfl, rfl⟩)
    fun _ _ ⟨same, start⟩ => ?_
  subst same start
  refine bind (P := fun _ after => derived = after) (here (b := fun _ => ()) (fun _ _ => rfl) rfl) fun _ _ start => ?_
  subst start
  refine here (b := third) (fun _ _ => rfl) ⟨still, ⟨fun i inside => ?_, fun q member => ?_⟩⟩
  · exact (tags' i).1.trans ((RankM.withGeometry_loc (made i inside).1).trans (tags i).1)
  · refine (metric q member).congr fun i inside => ?_
    obtain ⟨-, -, same, -⟩ := Coordinates.withGeometry_get (made i inside).1
    exact ((others i q (Quantity.metric_geometry member)).trans (same q member)).symm

/-- The geometry of a metric that is its own inverse's inverse has symbols that go with it. -/
theorem computeGeometry (own : ∀ i < l.count, (before i).mesh = meshes i) {raw : Nat → Coordinates ℝ}
    (dual : ∀ i < l.count, (raw i).Dual (meshes i)) :
    ComesTo l meshes (fun i => RankM.computeGeometry (fun _ => pure ()) (raw i)) before fun c after =>
      (∀ i < l.count, after i = before i) ∧ Exchanges l meshes raw c ∧ ∀ i < l.count, (c i).Compatible (meshes i) := by
  have leads (i : Nat) (inside : i < l.count) := (RankM.leads_compatible (given i inside) (room i inside)
    (fun _ => RankM.leads_pure (b := ()) fun _ kept => kept) (raw i)).narrow fun r (start : r = before i) => start ▸ own i inside
  refine ((exchangedGeometry given room own fun i inside => (dual i inside).shaped).leading leads).mono
    fun c after ⟨⟨same, exchanges⟩, compatible⟩ => ⟨same, exchanges, fun i inside => ?_⟩
  obtain ⟨d, derived, points⟩ := compatible i inside
  refine ⟨d, derived, fun x y z interior low high => points x y z interior low high ((dual i inside).inverse x y z ?_)⟩
  have holds := Layout.holds (given i inside) (room i inside) ((dual i inside).shaped (.contravariant .p11) (by decide))
  exact (holds.interior_point interior low high).1

end ComesTo

/-- Ranks that keep parts of the one metric of a location, if they keep any: for each location either none of them has
coordinates, or all of them have those that they built together. -/
structure Agreed (l : Layout ℝ) (meshes : Nat → Mesh ℝ) (ranks : Nat → Rank ℝ) : Prop where
  own : ∀ i < l.count, (ranks i).mesh = meshes i
  kept : ∀ loc, (∀ i < l.count, (ranks i).coordinatesOf? loc = none) ∨
    ∃ c, Built l meshes loc c ∧ ∀ i < l.count, (ranks i).coordinatesOf? loc = some (c i)

section Keeping

variable {l : Layout ℝ} {meshes : Nat → Mesh ℝ} {before after : Nat → Rank ℝ} {loc : Location} {c : Nat → Coordinates ℝ}

theorem Agreed.fresh (fresh : ∀ i < l.count, (before i).mesh = meshes i ∧ (before i).coordinates = []) :
    Agreed l meshes before :=
  ⟨fun i inside => (fresh i inside).1, fun _ => .inl fun i inside => by simp [Rank.coordinatesOf?, (fresh i inside).2]⟩

theorem Agreed.warned (agreed : Agreed l meshes before)
    (same : ∀ i < l.count, ∃ warnings, after i = { before i with warnings }) : Agreed l meshes after := by
  have own (i : Nat) (inside : i < l.count) : (after i).mesh = (before i).mesh ∧
      (after i).coordinates = (before i).coordinates := by
    obtain ⟨warnings, same⟩ := same i inside
    rw [same]
    exact ⟨rfl, rfl⟩
  refine ⟨fun i inside => (own i inside).1.trans (agreed.own i inside), fun loc => ?_⟩
  have known (i : Nat) (inside : i < l.count) : (after i).coordinatesOf? loc = (before i).coordinatesOf? loc := by
    rw [Rank.coordinatesOf?, (own i inside).2, Rank.coordinatesOf?]
  refine (agreed.kept loc).imp (fun none i inside => (known i inside).trans (none i inside)) fun ⟨c, built, had⟩ => ?_
  exact ⟨c, built, fun i inside => (known i inside).trans (had i inside)⟩

theorem Agreed.keeping (agreed : Agreed l meshes before) (built : Built l meshes loc c) :
    Agreed l meshes (fun i => (before i).keeping (c i)) ∧
      ∀ i < l.count, ((before i).keeping (c i)).coordinatesOf? loc = some (c i) := by
  have known (i : Nat) (inside : i < l.count) (site : Location) : ((before i).keeping (c i)).coordinatesOf? site =
      if site = loc then some (c i) else (before i).coordinatesOf? site := by
    rw [← built.loc_eq inside]
    exact Rank.coordinatesOf?_keep (c i) site
  refine ⟨⟨agreed.own, fun site => ?_⟩, fun i inside => (known i inside loc).trans (if_pos rfl)⟩
  by_cases here : site = loc
  · subst here
    exact .inr ⟨c, built, fun i inside => (known i inside site).trans (if_pos rfl)⟩
  · have other (i : Nat) (inside : i < l.count) := (known i inside site).trans (if_neg here)
    refine (agreed.kept site).imp (fun none i inside => (other i inside).trans (none i inside)) fun ⟨c', built, had⟩ => ?_
    exact ⟨c', built, fun i inside => (other i inside).trans (had i inside)⟩

end Keeping

namespace RankM

variable {α : Type}

/-- The coordinates a rank has for a location, or those it makes for it and keeps. -/
def onFirstUse (loc : Location) (make : RankM α (Coordinates α)) : RankM α (Coordinates α) := do
  match ← knownCoordinates? loc with
  | some c => return c
  | none =>
    let c ← make
    keepCoordinates c
    return c

variable [Scalar α]

theorem centreCoordinates_eq : (centreCoordinates : RankM α (Coordinates α)) = onFirstUse .centre makeCentre := rfl

theorem loadCoordinates_eq {place : Placement} {loc : Location} (located : place.orElse .centre = .real loc) :
    (loadCoordinates place : RankM α (Coordinates α)) = onFirstUse loc (makeCoordinates place) := by
  unfold loadCoordinates
  rw [located]
  rfl

end RankM

namespace ComesTo

variable {l : Layout ℝ} {meshes : Nat → Mesh ℝ} {before : Nat → Rank ℝ} {loc : Location}

/-- Coordinates that are made on first use are kept by all ranks from then on. -/
theorem firstUse (agreed : Agreed l meshes before) {make : RankM ℝ (Coordinates ℝ)}
    (makes : ComesTo l meshes (fun _ => make) before fun c after => Agreed l meshes after ∧ Built l meshes loc c) :
    ComesTo l meshes (fun _ => RankM.onFirstUse loc make) before fun c after =>
      Agreed l meshes after ∧ Built l meshes loc c ∧ ∀ i < l.count, (after i).coordinatesOf? loc = some (c i) := by
  have asked {known : Nat → Option (Coordinates ℝ)} (same : ∀ i < l.count, (before i).coordinatesOf? loc = known i) :
      ComesTo l meshes (fun _ => RankM.knownCoordinates? loc) before fun found after => known = found ∧ before = after :=
    here (fun i inside => congrArg (fun o => finished (Except.ok o, before i)) (same i inside)) ⟨rfl, rfl⟩
  rcases agreed.kept loc with none | ⟨c, built, had⟩
  · refine bind (asked none) fun _ _ ⟨same, start⟩ => ?_
    subst same start
    refine bind makes fun c middle ⟨agreed', built⟩ => ?_
    obtain ⟨agreed'', kept⟩ := agreed'.keeping built
    refine bind (P := fun _ after => (fun i => (middle i).keeping (c i)) = after) (here (b := fun _ => ())
      (fun _ _ => rfl) rfl) fun _ _ start => ?_
    subst start
    exact here (b := c) (fun _ _ => rfl) ⟨agreed'', built, kept⟩
  · refine bind (asked had) fun _ _ ⟨same, start⟩ => ?_
    subst same start
    exact here (b := c) (fun _ _ => rfl) ⟨agreed, built, had⟩

theorem throw (e : Failure) {Good : (Nat → Coordinates ℝ) → (Nat → Rank ℝ) → Prop} :
    ComesTo l meshes (fun _ => throw e) before Good :=
  .inr ⟨_, .refl _, 0, Nat.mul_pos l.columns.positive l.rows.positive, e, before 0, rfl⟩

variable (given : ∀ i < l.count, l.Assigns i (meshes i)) (room : ∀ i < l.count, (meshes i).HasRoom)
  (straight : l.shape.twistShift = false) (agreed : Agreed l meshes before)
include given room agreed

theorem makeCentre : ComesTo l meshes (fun _ => RankM.makeCentre) before fun c after =>
    Agreed l meshes after ∧ Built l meshes .centre c := by
  refine bind (of_tells agreed.own fun i _ => RankM.tells_readMetric _) fun raw middle read => ?_
  have agreed' := agreed.warned fun i inside => (read i inside).2
  refine ((computeGeometry given room agreed'.own fun i inside =>
    (read i inside).1.dual (given i inside) (room i inside)).labelled _).mono fun c after ⟨same, exchanges, compatible⟩ => ?_
  exact ⟨agreed'.warned fun i inside => ⟨_, same i inside⟩, .centre (fun i inside => (read i inside).1) exchanges compatible⟩

include straight

theorem makeCoordinates {place : Placement} (located : place.orElse .centre = .real loc) :
    ComesTo l meshes (fun _ => RankM.makeCoordinates place) before fun c after =>
      Agreed l meshes after ∧ Built l meshes loc c := by
  have aside (loc : Location) (away : loc ≠ .centre) : ComesTo l meshes (fun _ => do
      let c ← RankM.movedMetric (← RankM.insist RankM.centreCoordinates) loc
      RankM.labelled (.coordinates loc) (RankM.computeGeometry (fun _ => pure ()) c)) before fun c after =>
        Agreed l meshes after ∧ Built l meshes loc c := by
    rw [RankM.centreCoordinates_eq]
    refine bind (firstUse agreed (makeCentre given room agreed)).insist fun centre middle ⟨agreed', built, known⟩ => ?_
    refine bind (of_tells agreed'.own fun i _ => RankM.tells_movedMetric _ (centre i) loc) fun raw later moved => ?_
    have agreed'' := agreed'.warned fun i inside => (moved i inside).2
    have dual (i : Nat) (inside : i < l.count) :=
      (moved i inside).1.dual (built.dual given room straight i inside) (given i inside) (room i inside)
    refine ((computeGeometry given room agreed''.own dual).labelled _).mono fun c after ⟨same, exchanges, compatible⟩ => ?_
    exact ⟨agreed''.warned fun i inside => ⟨_, same i inside⟩,
      .aside away built (fun i inside => (moved i inside).1) exchanges compatible⟩
  unfold RankM.makeCoordinates
  rw [located]
  cases loc with
  | centre => exact makeCentre given room agreed
  | xlow | ylow | zlow => exact aside _ (by decide)

theorem coordinatesAt (place : Placement) : ComesTo l meshes (fun _ => RankM.coordinatesAt place) before fun c after =>
    Agreed l meshes after ∧ ∃ loc, place.orElse .centre = .real loc ∧ Built l meshes loc c ∧
      ∀ i < l.count, (after i).coordinatesOf? loc = some (c i) := by
  refine insist ?_
  cases located : place.orElse .centre with
  | real loc =>
    rw [RankM.loadCoordinates_eq located]
    exact (firstUse agreed (makeCoordinates given room straight agreed located)).mono
      fun c after ⟨agreed', known⟩ => ⟨agreed', loc, rfl, known⟩
  | inherit | shifted =>
    unfold RankM.loadCoordinates
    rw [located]
    refine bind (P := fun b after => (fun _ => none) = b ∧ before = after) (here (fun _ _ => rfl) ⟨rfl, rfl⟩)
      fun _ _ ⟨same, start⟩ => ?_
    subst same start
    unfold RankM.makeCoordinates
    rw [located]
    exact bind (P := fun _ _ => False) (throw _) fun _ _ never => never.elim

end ComesTo

end HaloMesh
