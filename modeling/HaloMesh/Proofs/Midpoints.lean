import HaloMesh.Proofs.LineDerivatives

/-! Interpolation point by point. A field gets to another location by half steps along the axes that it is
staggered along, and each half step works on every line by itself. -/

namespace HaloMesh

variable {α : Type}

/-- Half a cell down or up along an axis. -/
structure HalfStep where
  axis : Axis
  toLow : Bool
  target : Location

/-- The half steps from one location to another, through the centre. -/
def Location.route (source target : Location) : List HalfStep :=
  if target = source then []
  else
    (source.staggerAxis.map fun axis => ⟨axis, false, .centre⟩).toList ++
      (target.staggerAxis.map fun axis => ⟨axis, true, target⟩).toList

theorem Location.mem_route {source target : Location} {step : HalfStep} (member : step ∈ source.route target) :
    source = step.axis.low ∨ target = step.axis.low := by
  cases source <;> cases target <;> simp [route, staggerAxis] at member <;>
    first
      | (subst member; simp [Axis.low])
      | (rcases member with rfl | rfl <;> simp [Axis.low])

namespace Field

variable [Scalar α]

/-- The value midway between points `a` and `a + 1` of a line, none where the line ends. -/
def midway (line : Int → α) (periodic : Bool) (n a : Int) : Option α :=
  if periodic ∨ (0 ≤ a - 1 ∧ a + 2 < n) then
    some (Kernel.midpoint4 (line (a - 1)) (line a) (line (a + 1)) (line (a + 2)))
  else if 0 ≤ a ∧ a + 1 < n then some (0.5 * (line a + line (a + 1)))
  else none

/-- The value at point `i` of a line after a half step. The very end keeps its value. -/
def stepped (line : Int → α) (periodic toLow : Bool) (n i : Int) : α :=
  if n = 1 then line i else (midway line periodic n (i + if toLow then -1 else 0)).getD (line i)

theorem between_ok {get : Int → Outcome α} {line : Int → α} {periodic : Bool} {n : Int}
    (reads : ∀ j, periodic = true ∨ 0 ≤ j ∧ j < n → get j = .ok (line j)) (a : Int) :
    between get periodic n a = .ok (midway line periodic n a) := by
  unfold between midway
  by_cases wide : periodic = true ∨ (0 ≤ a - 1 ∧ a + 2 < n)
  · have inside (j : Int) (low : a - 1 ≤ j) (high : j ≤ a + 2) : periodic = true ∨ 0 ≤ j ∧ j < n :=
      wide.imp_right fun _ => by omega
    rw [if_pos wide, if_pos wide, reads _ (inside _ (by omega) (by omega)), reads _ (inside _ (by omega) (by omega)),
      reads _ (inside _ (by omega) (by omega)), reads _ (inside _ (by omega) (by omega))]
    rfl
  · rw [if_neg wide, if_neg wide]
    by_cases narrow : 0 ≤ a ∧ a + 1 < n
    · rw [if_pos narrow, if_pos narrow, reads _ (.inr (by omega)), reads _ (.inr (by omega))]
      rfl
    · rw [if_neg narrow, if_neg narrow]
      rfl

variable {f : Field α} {x y z : Int}

theorem along_self (axis : Axis) (has : f.HasPoint x y z) :
    f.along axis x y z (axis.coordinate x y z) = f.value x y z := by
  cases axis with
  | x | y => rfl
  | z => rw [along, Axis.coordinate, Int.emod_eq_of_lt has.2.1 has.2.2]

theorem halfStep_values (fits : f.Fits) (axis : Axis) (toLow : Bool) (target : Location) :
    ∃ r, f.halfStep axis toLow target = .ok r ∧ Alike (f.retag target) r ∧ ∀ x y z, f.HasPoint x y z →
      r.value x y z = stepped (f.along axis x y z) (decide (axis = .z)) toLow (f.axisSize axis)
        (axis.coordinate x y z) := by
  by_cases single : f.axisSize axis = 1
  · refine ⟨f.retag target, ?_, .refl _, fun x y z has => ?_⟩
    · simp only [halfStep, single, ↓reduceIte]
      rfl
    · rw [stepped, if_pos single, along_self axis has, value_retag]
  · let n := f.axisSize axis
    let first : Int := if toLow then -1 else 0
    let lines := (f.lineBases axis).map fun base => (⟨base, 0, n - 1⟩ : LineSpan)
    let value (base i : Int) := between ((f.reader axis).read f.data base) (decide (axis = .z)) n (i + first)
    let new (x y z : Int) := midway (f.along axis x y z) (decide (axis = .z)) n (axis.coordinate x y z + first)
    have only (l : LineSpan) (member : l ∈ lines) (i : Int) (low : l.lo ≤ i) (high : i ≤ l.hi) :
        ∃ x y z, f.HasPoint x y z ∧ True ∧ l.base = f.lineBase axis x y z ∧ i = axis.coordinate x y z := by
      obtain ⟨base, among, rfl⟩ := List.mem_map.mp member
      obtain ⟨x, y, z, has, start, here⟩ := exists_of_mem_lineBases among low (by simp only [n] at high; omega)
      exact ⟨x, y, z, has, trivial, start, here⟩
    have all (x y z : Int) (has : f.HasPoint x y z) (_ : True) : ∃ l ∈ lines, l.base = f.lineBase axis x y z ∧
        l.lo ≤ axis.coordinate x y z ∧ axis.coordinate x y z ≤ l.hi := by
      refine ⟨_, List.mem_map_of_mem (lineBase_mem axis has), rfl, ?_⟩
      obtain ⟨⟨inX, inY⟩, inZ⟩ := has
      cases axis <;> simp only [n, axisSize, Axis.coordinate] <;> omega
    have known (x y z : Int) (has : f.HasPoint x y z) (_ : True) :
        value (f.lineBase axis x y z) (axis.coordinate x y z) = .ok (new x y z) :=
      between_ok (fun j inside => read_along fits has (inside.imp_left (of_decide_eq_true ·))) _
    obtain ⟨data, swept, size, points⟩ := sweep_along (fun _ _ _ => True) fits rfl only all known
    obtain ⟨r, taken⟩ := withData_of_size (f := f.retag target) size
    refine ⟨r, ?_, (withData_ok taken).2, fun x y z has => ?_⟩
    · have checked : f.checkFits = .ok () := if_pos fits
      simp only [halfStep, single, ↓reduceIte, checked, decide_eq_true_eq]
      exact Outcome.bind_eq_ok.mpr ⟨(), rfl, Outcome.bind_eq_ok.mpr ⟨data, swept, taken⟩⟩
    · rw [stepped, if_neg single, along_self axis has]
      apply value_of_data taken
      change data[(f.place x y z).toNat]? = _
      rw [(points x y z has).1 trivial, getElem?_place fits has]
      change (new x y z).or (some (f.value x y z)) = some ((new x y z).getD (f.value x y z))
      cases new x y z <;> rfl

theorem interpolate_eq (f : Field α) (target : Location) : f.interpolate (.real target) =
    (f.loc.route target).foldlM (fun (g : Field α) step => g.halfStep step.axis step.toLow step.target) f := by
  cases source : f.loc <;> cases target <;>
    simp [interpolate, throughCentre, Location.route, Location.staggerAxis, source] <;> rfl

end Field

end HaloMesh
