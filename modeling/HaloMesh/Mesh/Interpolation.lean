import HaloMesh.Difference.Kernel
import HaloMesh.Mesh.Lines

/-! Moving a field to another location: fourth order midpoint values along the staggered axis.
Near the end of a line that does not wrap two points have to do, and the very end keeps
its value. Between two staggered locations the way leads through the centre. -/

namespace HaloMesh.Field

variable {α : Type} [Scalar α]

/-- The value between points `a` and `a + 1` of a line of `n` points, none where the line
ends. -/
def between (get : Int → Outcome α) (periodic : Bool) (n a : Int) : Outcome (Option α) := do
  if periodic ∨ (0 ≤ a - 1 ∧ a + 2 < n) then
    let p ← get (a - 1)
    let q ← get a
    let r ← get (a + 1)
    let s ← get (a + 2)
    return some (Kernel.midpoint4 p q r s)
  else if 0 ≤ a ∧ a + 1 < n then
    let q ← get a
    let r ← get (a + 1)
    return some (0.5 * (q + r))
  else return none

/-- Interpolates along one axis, half a cell down or up. -/
def halfStep (f : Field α) (axis : Axis) (toLow : Bool) (target : Location) :
    Outcome (Field α) := do
  let r := f.retag target
  let n := f.axisSize axis
  if n = 1 then return r
  f.checkFits
  let periodic := decide (axis = .z)
  let reader : LineReader := ⟨f.stride axis, if periodic then some n else none⟩
  let lines := (f.lineBases axis).map fun base => (⟨base, 0, n - 1⟩ : LineSpan)
  let first : Int := if toLow then -1 else 0
  r.withData (← sweep reader.stride lines
    (fun base i => between (reader.read f.data base) periodic n (i + first)) f.data)

/-- Interpolates between the centre and a staggered location. -/
def throughCentre (f : Field α) (target : Location) : Outcome (Field α) :=
  match target.staggerAxis, f.loc.staggerAxis with
  | some axis, _ => f.halfStep axis true target
  | none, some axis => f.halfStep axis false target
  | none, none => .ok f

/-- The field at a placement; it stays where it is if the placement leaves that open. -/
def interpolate (f : Field α) (place : Placement) : Outcome (Field α) :=
  match place with
  | .inherit => .ok f
  | .shifted => Outcome.raise (.interpolationTarget .shifted)
  | .real target =>
    if target = f.loc then .ok f
    else if f.loc ≠ .centre ∧ target ≠ .centre then do
      let centred ← f.throughCentre .centre
      centred.throughCentre target
    else f.throughCentre target

end HaloMesh.Field
