import HaloMesh.Operator.Derivative
import HaloMesh.Proofs.Midpoints

/-! What does not change. Interpolations, derivatives, transforms and arithmetic give fields of the shape, the frame and, where
nothing is moved, the place of their operands, whenever they give a field at all. -/

namespace HaloMesh

variable {α : Type}

/-! What is looked up before any value is depends on the layout only. -/

namespace Field.Alike

variable {f f' g g' : Field α} (like : Alike f f')
include like

theorem sameShape (g : Field α) : f'.sameShape g = f.sameShape g := by
  rw [Field.sameShape, Field.sameShape, like.extents]

theorem checkCompatible (like' : Alike g g') (op : String) :
    f.checkCompatible g op = f'.checkCompatible g' op := by
  cases f
  cases f'
  cases g
  cases g'
  obtain ⟨rfl, rfl, rfl, -, rfl, rfl⟩ := like
  obtain ⟨rfl, rfl, rfl, -, rfl, rfl⟩ := like'
  rfl

theorem checkFits : f'.checkFits = f.checkFits := by
  cases f
  cases f'
  obtain ⟨rfl, rfl, rfl, -, -, -⟩ := like
  rfl

theorem stride (axis : Axis) : f'.stride axis = f.stride axis := by
  cases axis <;> simp [Field.stride, like.ny, like.nz]

theorem lineBases (axis : Axis) : f'.lineBases axis = f.lineBases axis := by
  cases axis <;> simp [Field.lineBases, like.nx, like.ny, like.nz]

theorem checkLines (m : Mesh α) (axis : Axis) (inc : Bool) :
    m.checkLines f' axis inc = m.checkLines f axis inc := by
  cases axis <;> simp [Mesh.checkLines, like.nx, like.ny, like.nz, like.size]

theorem lineReader (m : Mesh α) (axis : Axis) : m.lineReader f' axis = m.lineReader f axis := by
  rw [Mesh.lineReader, Mesh.lineReader, like.stride]

theorem evaluationLines (m : Mesh α) (axis : Axis) (inc : Bool) :
    m.evaluationLines f' axis inc = m.evaluationLines f axis inc := by
  cases axis <;> simp [Mesh.evaluationLines, like.lineBases, like.nx, like.ny, like.nz]

end Field.Alike

variable [Scalar α]

namespace Field

variable {f g d : Field α}

omit [Scalar α] in
/-- Fields that could be combined are alike, and so is the result. -/
theorem combine_ok {op : String} {h : α → α → α} (taken : f.combine g op h = .ok d) :
    Alike f d ∧ g.extents = f.extents ∧ g.loc = f.loc ∧ g.aligned = f.aligned := by
  obtain ⟨_, compatible, made⟩ := Outcome.bind_eq_ok.mp taken
  simp only [checkCompatible] at compatible
  split at compatible
  · cases compatible
  split at compatible
  · cases compatible
  split at compatible
  · cases compatible
  next shape loc aligned =>
    have same : f.sameShape g = true := by simpa using shape
    exact ⟨(withData_ok made).2, (of_decide_eq_true same).symm, (not_not.mp loc).symm, (not_not.mp aligned).symm⟩

theorem dividedBy_alike (taken : f.dividedBy g = .ok d) : Alike f d := by
  unfold dividedBy at taken
  split at taken
  · cases taken
  · exact (withData_ok taken).2

theorem dividedRepeatedly_one (f g : Field α) : dividedRepeatedly g 1 f = f.dividedBy g :=
  bind_pure (f.dividedBy g)

theorem halfStep_alike {axis : Axis} {toLow : Bool} {target : Location} (moved : f.halfStep axis toLow target = .ok g) :
    Alike (f.retag target) g := by
  unfold halfStep at moved
  dsimp only at moved
  split at moved
  · cases moved
    exact .refl _
  · obtain ⟨_, -, rest⟩ := Outcome.bind_eq_ok.mp moved
    obtain ⟨data, -, made⟩ := Outcome.bind_eq_ok.mp rest
    exact (withData_ok made).2

theorem foldlM_halfStep_alike {steps : List HalfStep} (moved : steps.foldlM (fun (g : Field α) step =>
      g.halfStep step.axis step.toLow step.target) f = .ok g) : Alike (f.retag g.loc) g := by
  induction steps generalizing f with
  | nil =>
    cases moved
    exact .refl _
  | cons step rest ih =>
    rw [List.foldlM_cons] at moved
    obtain ⟨middle, first, moved⟩ := Outcome.bind_eq_ok.mp moved
    exact ((halfStep_alike first).retag g.loc).trans (ih moved)

/-- Interpolation changes the values and the location of a field only. -/
theorem interpolate_alike {place : Placement} (moved : f.interpolate place = .ok g) : Alike (f.retag g.loc) g := by
  cases place with
  | inherit =>
    cases moved
    exact .refl _
  | shifted => cases moved
  | real target =>
    rw [interpolate_eq] at moved
    exact foldlM_halfStep_alike moved

omit [Scalar α] in
theorem foldlM_alike {ι : Type} {step : Field α → ι → Outcome (Field α)} (each : ∀ g i h, step g i = .ok h → Alike g h)
    {items : List ι} (taken : items.foldlM step f = .ok g) : Alike f g := by
  induction items generalizing f with
  | nil =>
    cases taken
    exact .refl _
  | cons i rest ih =>
    rw [List.foldlM_cons] at taken
    obtain ⟨middle, first, taken⟩ := Outcome.bind_eq_ok.mp taken
    exact (each f i middle first).trans (ih taken)

theorem shiftZ_alike {transform : Nat → Outcome (Modes α)} {zLength : α} {angle : Nat → Nat → α}
    (taken : f.shiftZBy transform zLength angle = .ok g) : Alike f g := by
  unfold shiftZBy at taken
  split at taken
  · cases taken
    exact .refl _
  obtain ⟨_, -, taken⟩ := Outcome.bind_eq_ok.mp taken
  obtain ⟨modes, -, taken⟩ := Outcome.bind_eq_ok.mp taken
  refine foldlM_alike (fun h column h' turned => ?_) taken
  obtain ⟨x, y⟩ := column
  dsimp only at turned
  split at turned
  · cases turned
    exact .refl _
  · obtain ⟨line, -, made⟩ := Outcome.bind_eq_ok.mp turned
    cases made
    exact setLine_alike h x y _

end Field

namespace ParallelTransform

variable {transform : Nat → Outcome (Modes α)} {t : ParallelTransform α} {f g : Field α}

theorem shift_alike {metric : ShiftedMetric α} {sign : α} (taken : metric.shiftBy transform f sign = .ok g) :
    Field.Alike f g := by
  unfold ShiftedMetric.shiftBy at taken
  split at taken
  · cases taken
  · exact Field.shiftZ_alike taken

theorem toAligned_alike (taken : t.toAlignedBy transform f = .ok g) : Field.Alike (f.setAligned true) g := by
  cases t with
  | identity =>
    cases taken
    exact .refl _
  | shifted metric =>
    unfold toAlignedBy at taken
    dsimp only at taken
    split at taken
    · cases taken
    · obtain ⟨r, shifted, made⟩ := Outcome.bind_eq_ok.mp taken
      cases made
      have alike := shift_alike shifted
      exact ⟨alike.nx, alike.ny, alike.nz, alike.size, alike.loc, rfl⟩

theorem fromAligned_alike (taken : t.fromAlignedBy transform f = .ok g) : Field.Alike (f.setAligned false) g := by
  cases t with
  | identity =>
    cases taken
    exact .refl _
  | shifted metric =>
    unfold fromAlignedBy at taken
    dsimp only at taken
    split at taken
    · cases taken
    · obtain ⟨r, shifted, made⟩ := Outcome.bind_eq_ok.mp taken
      cases made
      have alike := shift_alike shifted
      exact ⟨alike.nx, alike.ny, alike.nz, alike.size, alike.loc, rfl⟩

end ParallelTransform

namespace Mesh

variable {m : Mesh α} {axis : Axis} {kind : Kind} {method : Method} {place : Placement} {v f d : Field α}

theorem differenced_alike {k : Kernel α} {o : Offset} {inc : Bool} (taken : m.differenced axis kind k o f inc = .ok d) :
    Field.Alike f d := by
  obtain ⟨_, -, rest⟩ := Outcome.bind_eq_ok.mp taken
  split at rest
  · obtain ⟨_, -, rest⟩ := Outcome.bind_eq_ok.mp rest
    obtain ⟨_, -, made⟩ := Outcome.bind_eq_ok.mp rest
    exact (Field.withData_ok made).2
  · obtain ⟨_, -, made⟩ := Outcome.bind_eq_ok.mp rest
    exact (Field.withData_ok made).2

theorem settle_alike {p : DerivativePlan} (like : Field.Alike (f.retag d.loc) (v.retag d.loc)) (taken : settle p v = .ok d) :
    Field.Alike (f.retag d.loc) d := by
  have placed : Field.Alike (f.retag d.loc) ((if p.staggered then v.retag p.evaluatedAt else v).retag d.loc) := by
    split <;> exact like
  unfold settle at taken
  cases moves : p.resultTo with
  | some loc =>
    rw [moves] at taken
    exact placed.trans (Field.interpolate_alike taken)
  | none =>
    rw [moves] at taken
    cases taken
    exact placed

/-- A derivative changes the values and the location of a field only. -/
theorem derivative_alike {inc : Bool} (taken : m.derivative axis kind f place method inc = .ok d) :
    Field.Alike (f.retag d.loc) d := by
  cases planned : m.plan axis f.loc place with
  | error e =>
    unfold derivative at taken
    rw [planned] at taken
    cases taken
  | ok p =>
    by_cases single : m.axisSize axis = 1
    · rw [derivative_single planned single] at taken
      cases taken
      exact f.alike_zeroLike.retag p.output
    · rw [derivative_bind planned single] at taken
      obtain ⟨k, -, taken⟩ := Outcome.bind_eq_ok.mp taken
      have rest {input : Field α} (like : Field.Alike (f.retag d.loc) (input.retag d.loc))
          (taken : (m.differenced axis kind k p.offset input inc >>= settle p) = .ok d) : Field.Alike (f.retag d.loc) d := by
        obtain ⟨evaluated, differenced, taken⟩ := Outcome.bind_eq_ok.mp taken
        exact settle_alike (like.trans ((differenced_alike differenced).retag d.loc)) taken
      dsimp only at taken
      split at taken
      · obtain ⟨input, moved, taken⟩ := Outcome.bind_eq_ok.mp taken
        exact rest ((Field.interpolate_alike moved).retag d.loc) taken
      · exact rest (.refl _) taken

theorem applyFlow_alike {k : Kernel α} {o : Offset} (taken : m.applyFlow axis k o v f = .ok d) : Field.Alike f d := by
  obtain ⟨_, -, rest⟩ := Outcome.bind_eq_ok.mp taken
  obtain ⟨_, -, made⟩ := Outcome.bind_eq_ok.mp rest
  exact (Field.withData_ok made).2

end Mesh

end HaloMesh
