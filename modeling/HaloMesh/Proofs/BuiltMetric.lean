import Mathlib.Analysis.Real.Sqrt
import HaloMesh.Proofs.DualMetric
import HaloMesh.Proofs.JointOutcomes
import HaloMesh.Proofs.KeptCoordinates

/-! Coordinates that all ranks build together. Each rank reads its part of the metric by itself, and the exchanges put the
parts together. However often and in whatever order coordinates are asked for, those at one location have one metric. -/

namespace HaloMesh
open Transport Program

namespace RankM

section Tells

variable {α β γ : Type} {m : Mesh α} {p : RankM α β} {next : β → RankM α γ} {P : β → Prop} {Q : γ → Prop}

/-- A computation that looks at the mesh of its rank only, and leaves nothing but warnings. Its results have a property. -/
def Tells (m : Mesh α) (p : RankM α β) (P : β → Prop) : Prop := ∀ r : Rank α, r.mesh = m →
  ∃ outcome warnings, p.run.run r = finished (outcome, { r with warnings }) ∧ ∀ b, outcome = .ok b → P b

theorem tells_ofOutcome {outcome : Outcome β} (good : ∀ b, outcome = .ok b → P b) : Tells m (ofOutcome outcome) P :=
  fun r _ => ⟨outcome, r.warnings, rfl, good⟩

theorem tells_pure {b : β} (good : P b) : Tells m (pure b) P := tells_ofOutcome fun _ same => Except.ok.inj same ▸ good

theorem tells_throw (e : Failure) : Tells m (throw e : RankM α β) P :=
  fun r _ => ⟨.error e, r.warnings, rfl, fun _ failed => nomatch failed⟩

theorem tells_mesh : Tells m mesh (· = m) := fun r own => ⟨.ok r.mesh, r.warnings, rfl, fun _ same => Except.ok.inj same ▸ own⟩

theorem tells_warn (message : String) : Tells m (warn message) fun _ => True :=
  fun r _ => ⟨.ok (), r.warnings ++ [message], rfl, fun _ _ => trivial⟩

theorem Tells.bind (first : Tells m p P) (second : ∀ b, P b → Tells m (next b) Q) : Tells m (p >>= next) Q := by
  intro r own
  obtain ⟨outcome, warnings, ran, good⟩ := first r own
  rw [run_bind, ran]
  cases outcome with
  | error e => exact ⟨.error e, warnings, rfl, fun _ failed => nomatch failed⟩
  | ok b => exact second b (good b rfl) { r with warnings } own

theorem Tells.labelled (tells : Tells m p P) (activity : Activity) : Tells m (labelled activity p) P := by
  intro r own
  obtain ⟨outcome, warnings, ran, good⟩ := tells r own
  refine ⟨_, warnings, congrArg (Program.bind · _) ran, fun b found => ?_⟩
  cases outcome with
  | error e => cases found
  | ok b' => exact good b found

theorem tells_ofFunctionM {make : Pair → RankM α β} {Good : Pair → β → Prop} (each : ∀ p, Tells m (make p) (Good p)) :
    Tells m (Symmetric.ofFunctionM make) fun s => ∀ p, Good p (s.get p) := by
  refine (each .p11).bind fun c11 good11 => (each .p22).bind fun c22 good22 => (each .p33).bind fun c33 good33 => ?_
  refine (each .p12).bind fun c12 good12 => (each .p13).bind fun c13 good13 => (each .p23).bind fun c23 good23 => ?_
  exact tells_pure fun p => by cases p <;> assumption

variable [Scalar α]

theorem tells_gridField (name : String) (dflt : α) :
    Tells m (gridField name dflt) fun f => ∃ e, m.getField name dflt = .ok (f, e) := by
  refine tells_mesh.bind fun m' own => ?_
  subst own
  refine (tells_ofOutcome fun _ found => found).bind fun found known => ?_
  obtain ⟨f, e⟩ := found
  cases e with
  | none => exact tells_pure ⟨_, known⟩
  | some e =>
    dsimp only
    split
    · exact tells_pure ⟨_, known⟩
    · exact tells_throw _

theorem tells_gridOrComputed (name warning : String) (computed : Field α) :
    Tells m (gridOrComputed name warning computed) fun f => f = computed ∨ ∃ e, m.getField name 0 = .ok (f, e) := by
  refine tells_mesh.bind fun m' own => ?_
  subst own
  refine (tells_ofOutcome fun _ found => found).bind fun found known => ?_
  obtain ⟨f, e⟩ := found
  cases e with
  | none =>
    dsimp only
    split
    · exact (tells_warn _).bind fun _ _ => tells_pure (.inr ⟨_, known⟩)
    · exact tells_pure (.inr ⟨_, known⟩)
  | some e =>
    dsimp only
    split
    · exact tells_pure (.inl rfl)
    · exact tells_throw _

end Tells

end RankM

section Raw

variable {α : Type} [Scalar α]

/-- A metric at the cell centres as a mesh reads it from the grid. -/
structure Mesh.Reads (m : Mesh α) (c : Coordinates α) : Prop where
  here : c.loc = .centre
  shaped : ∀ q ∈ Quantity.metric, (c.get q).extents = m.extents
  contravariant : ∀ p, ∃ e, m.getField (Quantity.contravariant p).name (if p.isDiagonal then 1 else 0) =
    .ok (c.contravariant.get p, e)
  covariant : c.contravariant.inverse = .ok c.covariant

/-- A metric moved from the cell centres. -/
structure Coordinates.Moves (centre : Coordinates α) (loc : Location) (c : Coordinates α) : Prop where
  there : c.loc = loc
  shaped : ∀ e, (∀ q ∈ Quantity.metric, (centre.get q).extents = e) → ∀ q ∈ Quantity.metric, (c.get q).extents = e
  contravariant : ∀ p, (centre.contravariant.get p).interpolate (.real loc) = .ok (c.contravariant.get p)
  covariant : c.contravariant.inverse = .ok c.covariant

namespace RankM

theorem tells_readMetric (m : Mesh α) : Tells m readMetric m.Reads := by
  refine tells_mesh.bind fun m' own => ?_
  subst own
  refine (tells_gridField "dx" 1).bind fun dx readX => (tells_gridField "dy" 1).bind fun dy readY => ?_
  refine (tells_ofFunctionM fun p => tells_gridField _ _).bind fun contravariant read => ?_
  refine (tells_gridField "ShiftTorsion" 0).bind fun shift _ => (tells_gridField "IntShiftTorsion" 0).bind fun twice _ => ?_
  refine (tells_ofOutcome fun _ found => found).bind fun covariant inverted => ?_
  refine (tells_gridOrComputed "J" _ _).bind fun jacobian readJ => ?_
  refine (tells_ofOutcome fun _ found => found).bind fun computed divided => ?_
  refine (tells_gridOrComputed "Bxy" _ _).bind fun bxy readB => tells_pure ?_
  have inverse := Outcome.returned_eq_ok.mp inverted
  have given {name : String} {dflt : α} {f : Field α} (read : ∃ e, m'.getField name dflt = .ok (f, e)) :
      f.extents = m'.extents := read.elim fun _ found => (Mesh.getField_level found).1
  have upper (p : Pair) := given (read p)
  have lower (p : Pair) : (covariant.get p).extents = m'.extents :=
    (Symmetric.inverse_alike inverse p).extents.trans (upper .p11)
  refine ⟨rfl, fun q member => ?_, read, inverse⟩
  cases q with
  | dx => exact given readX
  | dy => exact given readY
  | contravariant p => exact upper p
  | covariant p => exact lower p
  | jacobian =>
    rcases readJ with rfl | known
    · exact upper .p11
    · exact given known
  | bxy =>
    rcases readB with rfl | known
    · exact (Field.combine_ok divided).1.extents.trans (lower .p22)
    · exact given known
  | shiftTorsion | intShiftTorsion => exact absurd member (by decide)
  | symbol k p => exact absurd member (by cases k <;> cases p <;> decide)
  | laplacian k => exact absurd member (by cases k <;> decide)

theorem tells_movedMetric (m : Mesh α) (centre : Coordinates α) (loc : Location) :
    Tells m (movedMetric centre loc) (centre.Moves loc) := by
  have move (f : Field α) : Tells m (ofOutcome (f.interpolate (.real loc))) fun g => f.interpolate (.real loc) = .ok g :=
    tells_ofOutcome fun _ moved => moved
  refine (move centre.dx).bind fun dx movedX => (move centre.dy).bind fun dy movedY => ?_
  refine (tells_ofFunctionM fun p => move _).bind fun contravariant moved => ?_
  refine (move centre.jacobian).bind fun jacobian movedJ => (move centre.bxy).bind fun bxy movedB => ?_
  refine (move centre.shiftTorsion).bind fun shift _ => (move centre.intShiftTorsion).bind fun twice _ => ?_
  refine (tells_ofOutcome fun c lowered => ?_).labelled _
  have lowered := Outcome.returned_eq_ok.mp lowered
  unfold Coordinates.lowerMetric at lowered
  cases inverse : contravariant.inverse with
  | error e =>
    rw [inverse] at lowered
    cases lowered
  | ok covariant =>
    rw [inverse] at lowered
    cases lowered
    have same {f g : Field α} {e : Extents} (shaped : f.extents = e) (moved : f.interpolate (.real loc) = .ok g) :
        g.extents = e := (Field.interpolate_alike moved).extents.trans shaped
    refine ⟨rfl, fun e shaped q member => ?_, moved, inverse⟩
    cases q with
    | dx => exact same (shaped .dx member) movedX
    | dy => exact same (shaped .dy member) movedY
    | contravariant p => exact same (shaped (.contravariant p) member) (moved p)
    | covariant p =>
      exact (Symmetric.inverse_alike inverse p).extents.trans (same (shaped (.contravariant .p11) (by decide)) (moved .p11))
    | jacobian => exact same (shaped .jacobian member) movedJ
    | bxy => exact same (shaped .bxy member) movedB
    | shiftTorsion | intShiftTorsion => exact absurd member (by decide)
    | symbol k p => exact absurd member (by cases k <;> cases p <;> decide)
    | laplacian k => exact absurd member (by cases k <;> decide)

end RankM

end Raw

/-! The metrics at the locations of a grid. -/

theorem Symmetric.ext_get {β : Type} {s t : Symmetric β} (same : ∀ p, s.get p = t.get p) : s = t := by
  obtain ⟨_, _, _, _, _, _⟩ := s
  exact Symmetric.mk.injEq .. |>.mpr ⟨same .p11, same .p22, same .p33, same .p12, same .p13, same .p23⟩

/-- The metrics of two coordinates are the same with upper and with lower indices. -/
structure Coordinates.SameMetric {α : Type} (c c' : Coordinates α) : Prop where
  contravariant : c.contravariant = c'.contravariant
  covariant : c.covariant = c'.covariant

theorem Coordinates.SameMetric.trans {α : Type} {c c' c'' : Coordinates α} (first : c.SameMetric c')
    (second : c'.SameMetric c'') : c.SameMetric c'' :=
  ⟨first.contravariant.trans second.contravariant, first.covariant.trans second.covariant⟩

theorem Coordinates.SameMetric.of_inverse {α : Type} [Scalar α] {c c' : Coordinates α}
    (contravariant : ∀ p, c.contravariant.get p = c'.contravariant.get p) (inverted : c.contravariant.inverse = .ok c.covariant)
    (inverted' : c'.contravariant.inverse = .ok c'.covariant) : c.SameMetric c' := by
  have same := Symmetric.ext_get contravariant
  exact ⟨same, Except.ok.inj (inverted.symm.trans (same ▸ inverted'))⟩

/-- The metric of these coordinates has come from another one by an exchange of all ranks. -/
structure Exchanges (l : Layout ℝ) (meshes : Nat → Mesh ℝ) (raw c : Nat → Coordinates ℝ) : Prop where
  loc : ∀ i < l.count, (c i).loc = (raw i).loc
  exchanged : ∀ q ∈ Quantity.metric, Exchanged l meshes (fun i => (raw i).get q) fun i => (c i).get q

/-- Coordinates of all ranks with the metric of a location: at the centre the one read from the grid, elsewhere the one
moved from there, in each case after an exchange. Their symbols go with this metric. -/
inductive Built (l : Layout ℝ) (meshes : Nat → Mesh ℝ) : Location → (Nat → Coordinates ℝ) → Prop where
  | centre {raw c} (reads : ∀ i < l.count, (meshes i).Reads (raw i)) (exchanges : Exchanges l meshes raw c)
      (compatible : ∀ i < l.count, (c i).Compatible (meshes i)) : Built l meshes .centre c
  | aside {centre raw c} {loc : Location} (away : loc ≠ .centre) (built : Built l meshes .centre centre)
      (moves : ∀ i < l.count, (centre i).Moves loc (raw i)) (exchanges : Exchanges l meshes raw c)
      (compatible : ∀ i < l.count, (c i).Compatible (meshes i)) : Built l meshes loc c

section Metrics

variable {l : Layout ℝ} {meshes : Nat → Mesh ℝ} {loc : Location} {c c' : Nat → Coordinates ℝ} {i : Nat}

theorem Built.loc_eq (built : Built l meshes loc c) (inside : i < l.count) : (c i).loc = loc := by
  cases built with
  | centre reads exchanges => exact (exchanges.loc i inside).trans (reads i inside).here
  | aside away built moves exchanges => exact (exchanges.loc i inside).trans (moves i inside).there

theorem Built.compatible (built : Built l meshes loc c) : ∀ i < l.count, (c i).Compatible (meshes i) := by
  cases built with
  | centre _ _ compatible => exact compatible
  | aside _ _ _ _ compatible => exact compatible

/-- The metric that a mesh reads is inverted. -/
theorem Mesh.Reads.dual {m : Mesh ℝ} {raw : Coordinates ℝ} (reads : m.Reads raw) (given : l.Assigns i m) (room : m.HasRoom) :
    raw.Dual m := by
  have whole (p : Pair) : (raw.contravariant.get p).Fits :=
    (Layout.holds given room (reads.shaped (.contravariant p) (Quantity.contravariant_mem p))).fits
  refine .of_inverse (whole .p11) reads.shaped (fun p => ?_) reads.covariant
  obtain ⟨e, read⟩ := reads.contravariant p
  exact (Mesh.getField_level read).2 (whole p)

/-- A metric that was moved is inverted anew. -/
theorem Coordinates.Moves.dual {m : Mesh ℝ} {centre raw : Coordinates ℝ} (moves : centre.Moves loc raw) (dual : centre.Dual m)
    (given : l.Assigns i m) (room : m.HasRoom) : raw.Dual m := by
  have fits {f : Field ℝ} (block : f.extents = m.extents) : f.Fits := (Layout.holds given room block).fits
  have shaped := moves.shaped _ dual.shaped
  have whole (p : Pair) := fits (dual.shaped (.contravariant p) (Quantity.contravariant_mem p))
  exact .of_inverse (fits (shaped (.contravariant .p11) (by decide))) shaped
    (fun p => (dual.level p).interpolate (whole p) (moves.contravariant p)) moves.covariant

variable (given : ∀ i < l.count, l.Assigns i (meshes i)) (room : ∀ i < l.count, (meshes i).HasRoom)
  (straight : l.shape.twistShift = false)
include given room straight

/-- However coordinates were built, their metrics are inverse to each other everywhere, in the guard cells as well. -/
theorem Built.dual (built : Built l meshes loc c) : ∀ i < l.count, (c i).Dual (meshes i) := by
  induction built with
  | centre reads exchanges =>
    exact fun i inside => Coordinates.Dual.exchanged given room straight
      (fun j within => (reads j within).dual (given j within) (room j within)) exchanges.exchanged inside
  | aside away built moves exchanges _ ih =>
    exact fun i inside => Coordinates.Dual.exchanged given room straight
      (fun j within => (moves j within).dual (ih j within) (given j within) (room j within)) exchanges.exchanged inside

theorem Exchanges.unique {raw raw' : Nat → Coordinates ℝ} (first : Exchanges l meshes raw c)
    (second : Exchanges l meshes raw' c') (shaped : ∀ i < l.count, ∀ q ∈ Quantity.metric, ((raw i).get q).extents = (meshes i).extents)
    (same : ∀ i < l.count, (raw i).SameMetric (raw' i)) (inside : i < l.count) : (c i).SameMetric (c' i) := by
  have unique (q : Quantity) (member : q ∈ Quantity.metric) (same : ∀ i < l.count, (raw i).get q = (raw' i).get q) :
      (c i).get q = (c' i).get q :=
    Exchanged.unique given room straight (fun j within => shaped j within q member) (first.exchanged q member)
      (second.exchanged q member) same inside
  refine ⟨Symmetric.ext_get fun p => ?_, Symmetric.ext_get fun p => ?_⟩
  · exact unique (.contravariant p) (Quantity.contravariant_mem p) fun j within =>
      congrArg (·.get p) (same j within).contravariant
  · exact unique (.covariant p) (Quantity.covariant_mem p) fun j within => congrArg (·.get p) (same j within).covariant

/-- There is one metric for each location. -/
theorem Built.unique (first : Built l meshes loc c) (second : Built l meshes loc c') :
    ∀ i < l.count, (c i).SameMetric (c' i) := by
  induction first generalizing c' with
  | centre reads exchanges =>
    cases second with
    | aside away => exact absurd rfl away
    | centre reads' exchanges' =>
      refine fun i inside => exchanges.unique given room straight exchanges' (fun j within => (reads j within).shaped)
        (fun j within => ?_) inside
      refine .of_inverse (fun p => ?_) (reads j within).covariant (reads' j within).covariant
      obtain ⟨e, read⟩ := (reads j within).contravariant p
      obtain ⟨e', read'⟩ := (reads' j within).contravariant p
      exact (Prod.mk.inj (Except.ok.inj (read.symm.trans read'))).1
  | aside away built moves exchanges _ ih =>
    cases second with
    | centre => exact absurd rfl away
    | aside away' built' moves' exchanges' =>
      refine fun i inside => exchanges.unique given room straight exchanges' (fun j within =>
        (moves j within).shaped _ (built.dual given room straight j within).shaped) (fun j within => ?_) inside
      refine .of_inverse (fun p => ?_) (moves j within).covariant (moves' j within).covariant
      have moved := (moves' j within).contravariant p
      rw [← (ih built' j within).contravariant] at moved
      exact Except.ok.inj (((moves j within).contravariant p).symm.trans moved)

end Metrics

end HaloMesh
