import HaloMesh.Proofs.RankOutcomes

/-! What a rank finds out it keeps. Coordinates that were made for a location are found there from then on, without the
other ranks, as long as nobody replaces them. -/

namespace HaloMesh
open Transport Program

section Ranks

variable {α β : Type}

/-- The coordinates a rank has for a location. -/
def Rank.coordinatesOf? (r : Rank α) (loc : Location) : Option (Coordinates α) :=
  (r.coordinates.find? fun e => e.1 = loc).map Prod.snd

/-- A rank has what another one has found out, and may have found out more. -/
structure Rank.Retains (r' r : Rank α) : Prop where
  mesh : r'.mesh = r.mesh
  coordinates : ∀ loc c, r.coordinatesOf? loc = some c → r'.coordinatesOf? loc = some c
  transform : ∀ t, r.transform = some t → r'.transform = some t

/-- A rank comes to a result at once and stays as it is. -/
def Rank.Returns (r : Rank α) (p : RankM α β) (b : β) : Prop := p.run.run r = .finished (.ok b, r)

namespace Rank

variable {r r' r'' : Rank α}

theorem Retains.refl (r : Rank α) : r.Retains r := ⟨rfl, fun _ _ found => found, fun _ found => found⟩

theorem Retains.trans (later : r''.Retains r') (first : r'.Retains r) : r''.Retains r :=
  ⟨later.mesh.trans first.mesh, fun loc c found => later.coordinates loc c (first.coordinates loc c found),
    fun t found => later.transform t (first.transform t found)⟩

theorem Returns.bind {γ : Type} {p : RankM α β} {next : β → RankM α γ} {b : β} {d : γ} (first : r.Returns p b)
    (second : r.Returns (next b) d) : r.Returns (p >>= next) d := by
  rw [Returns, RankM.run_bind, first]
  exact second

theorem returns_ofOutcome {o : Outcome β} {b : β} (good : o = .ok b) : r.Returns (RankM.ofOutcome o) b :=
  congrArg (fun o => finished (o, r)) good

theorem returns_mesh {m : Mesh α} (own : r.mesh = m) : r.Returns RankM.mesh m :=
  congrArg (fun m => finished (Except.ok m, r)) own

theorem coordinatesOf?_keep (c : Coordinates α) (loc : Location) :
    { r with coordinates := (c.loc, c) :: r.coordinates.filter fun e => e.1 ≠ c.loc }.coordinatesOf? loc =
      if loc = c.loc then some c else r.coordinatesOf? loc := by
  unfold coordinatesOf?
  by_cases here : loc = c.loc
  · simp [here]
  · have apart : (decide (c.loc = loc)) = false := decide_eq_false fun same => here same.symm
    rw [if_neg here, List.find?_cons_of_neg (by simp [apart]), List.find?_filter]
    refine congrArg (Option.map Prod.snd) (List.find?_congr fun e _ => ?_)
    by_cases found : e.1 = loc
    · simp [found, here]
    · simp [found]

/-- A rank with the mesh and the transform of another one, and with the coordinates it had. -/
structure Continues (r' r : Rank α) : Prop where
  retains : r'.Retains r
  transform : r'.transform = r.transform

theorem Continues.unshifted [Scalar α] {m : Mesh α} (continues : r'.Continues r) (kept : r.Unshifted m) : r'.Unshifted m :=
  ⟨continues.retains.mesh.trans kept.mesh, continues.transform ▸ kept.identity⟩

end Rank

end Ranks

namespace RankM

section Keeping

variable {α : Type} {r : Rank α}

theorem continues_warned (r' : Rank α) (warnings : List String) (continues : r'.Continues r) :
    { r' with warnings }.Continues r :=
  ⟨⟨continues.retains.mesh, continues.retains.coordinates, continues.retains.transform⟩, continues.transform⟩

/-- Coordinates for a location without any do not replace others. -/
theorem leads_keepCoordinates (c : Coordinates α) :
    Leads (fun r' => r'.Continues r ∧ r.coordinatesOf? c.loc = none) (keepCoordinates c)
      fun _ r' => r'.Continues r ∧ r'.coordinatesOf? c.loc = some c := by
  intro r' known _ _
  obtain ⟨continues, free⟩ := known
  refine ⟨⟨⟨continues.retains.mesh, fun loc c' found => ?_, continues.retains.transform⟩, continues.transform⟩, ?_⟩
  · have apart : loc ≠ c.loc := fun same => nomatch (same ▸ found).symm.trans free
    exact (Rank.coordinatesOf?_keep c loc).trans ((if_neg apart).trans (continues.retains.coordinates loc c' found))
  · exact (Rank.coordinatesOf?_keep c c.loc).trans (if_pos rfl)

theorem leads_knownCoordinates (loc : Location) : Leads (fun r' : Rank α => r'.Continues r) (knownCoordinates? loc)
    fun known r' => (r'.Continues r ∧ r'.coordinatesOf? loc = known) ∧ (known = none → r.coordinatesOf? loc = none) := by
  intro r' continues known found
  obtain rfl := Except.ok.inj found
  refine ⟨⟨continues, rfl⟩, fun none => ?_⟩
  cases had : r.coordinatesOf? loc with
  | none => rfl
  | some c => exact nomatch none.symm.trans (continues.retains.coordinates loc c had)

/-- Coordinates that are made on first use are there from then on. -/
theorem leads_madeCoordinates {make : RankM α (Coordinates α)} {loc : Location}
    (makes : Leads (fun r' => r'.Continues r) make fun c r' => r'.Continues r ∧ c.loc = loc) :
    Leads (fun r' => r'.Continues r) (do
      match ← knownCoordinates? loc with
      | some c => return c
      | none =>
        let c ← make
        keepCoordinates c
        return c) fun c r' => r'.Continues r ∧ r'.coordinatesOf? loc = some c := by
  refine Leads.bind (leads_knownCoordinates loc) fun known => Leads.of_fact fun free => ?_
  cases known with
  | some c => exact leads_pure fun r' kept => kept
  | none =>
    refine Leads.bind (makes.narrow fun r' kept => kept.1) fun c => Leads.of_fact fun here => ?_
    refine Leads.bind (Q := fun _ r' => r'.Continues r ∧ r'.coordinatesOf? loc = some c) ?_ fun _ =>
      leads_pure fun _ kept => kept
    rw [← here] at free ⊢
    exact (leads_keepCoordinates c).narrow fun r' continues => ⟨continues, free rfl⟩

end Keeping

variable {α : Type} [Scalar α] {r : Rank α} {m : Mesh α}

theorem leads_centreCoordinates : Leads (fun r' : Rank α => r'.Continues r) centreCoordinates fun _ r' => r'.Continues r := by
  unfold centreCoordinates
  exact (leads_madeCoordinates (leads_makeCentre continues_warned)).weaken fun c r' kept => kept.1

theorem leads_movedMetric {P : Rank α → Prop} (centre : Coordinates α) (loc : Location) :
    Leads P (movedMetric centre loc) fun c r => P r ∧ c.loc = loc := by
  unfold movedMetric
  refine Leads.bind (stays_ofOutcome _) fun dx => Leads.bind (stays_ofOutcome _) fun dy => ?_
  refine Leads.bind (stays_ofFunctionM fun p => stays_ofOutcome _) fun contravariant => ?_
  refine Leads.bind (stays_ofOutcome _) fun jacobian => Leads.bind (stays_ofOutcome _) fun bxy => ?_
  refine Leads.bind (stays_ofOutcome _) fun shift => Leads.bind (stays_ofOutcome _) fun twice => ?_
  refine (leads_ofOutcome fun r c kept lowered => ?_).labelled _
  refine ⟨kept, ?_⟩
  unfold Coordinates.lowerMetric at lowered
  cases inverted : contravariant.inverse with
  | error e =>
    rw [inverted] at lowered
    cases lowered
  | ok covariant =>
    rw [inverted] at lowered
    cases lowered
    rfl

theorem leads_makeCoordinates {place : Placement} {loc : Location} (located : place.orElse .centre = .real loc) :
    Leads (fun r' : Rank α => r'.Continues r) (makeCoordinates place) fun c r' => r'.Continues r ∧ c.loc = loc := by
  have aside (loc : Location) : Leads (fun r' : Rank α => r'.Continues r) (do
      let c ← movedMetric (← insist centreCoordinates) loc
      labelled (.coordinates loc) (computeGeometry (fun _ => pure ()) c)) fun c r' => r'.Continues r ∧ c.loc = loc := by
    refine Leads.bind leads_centreCoordinates.insist fun centre => ?_
    refine Leads.bind (leads_movedMetric centre loc) fun c => Leads.of_fact fun here => ?_
    exact ((leads_computeGeometry c).labelled _).weaken fun c' r' kept => ⟨kept.1, kept.2.trans here⟩
  unfold makeCoordinates
  rw [located]
  cases loc with
  | centre => exact leads_makeCentre continues_warned
  | xlow => exact aside .xlow
  | ylow => exact aside .ylow
  | zlow => exact aside .zlow

theorem returns_coordinatesAt {place : Placement} {loc : Location} {c : Coordinates α}
    (located : place.orElse .centre = .real loc) (found : r.coordinatesOf? loc = some c) : r.Returns (coordinatesAt place) c := by
  have known : r.Returns (knownCoordinates? loc) (some c) := congrArg (fun o => finished (Except.ok o, r)) found
  have loaded : r.Returns (loadCoordinates place) c := by
    unfold loadCoordinates
    rw [located]
    exact known.bind rfl
  rw [Rank.Returns, coordinatesAt, insist]
  change ((loadCoordinates place).run.run r).bind _ = _
  rw [loaded]
  rfl

theorem leads_coordinatesAt (place : Placement) : Leads (fun r' : Rank α => r'.Continues r) (coordinatesAt place)
    fun c r' => r'.Continues r ∧ ∃ loc, place.orElse .centre = .real loc ∧ r'.coordinatesOf? loc = some c := by
  refine Leads.insist ?_
  unfold loadCoordinates
  cases located : place.orElse .centre with
  | real loc =>
    exact (leads_madeCoordinates (leads_makeCoordinates located)).weaken fun c r' kept => ⟨kept.1, loc, rfl, kept.2⟩
  | inherit | shifted =>
    unfold makeCoordinates
    rw [located]
    exact fun _ _ _ failed => nomatch failed

/-- Coordinates at the cell centres that could be had are known from then on. -/
theorem leads_coordinates : Leads (fun r => r.Unshifted m) (coordinatesAt (.real .centre)) fun c r => r.Knows m c := by
  intro r kept
  refine (leads_coordinatesAt (.real .centre) r ⟨.refl r, rfl⟩).mono fun _ result c finished => ?_
  obtain ⟨continues, loc, located, found⟩ := result c finished
  cases located
  have kept' := continues.unshifted kept
  obtain ⟨⟨loc, c'⟩, held, rfl⟩ := Option.map_eq_some_iff.mp found
  obtain rfl : loc = .centre := by simpa using List.find?_some held
  exact ⟨kept'.mesh, held, kept'.identity⟩

end RankM

end HaloMesh
