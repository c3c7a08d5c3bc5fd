import HaloMesh.Difference.Spectral
import HaloMesh.Mesh.Interpolation

/-! Derivatives in index units. The guard cells of the input have to be filled; the result is
zero outside the range it is evaluated on. A change of location along the axis of the
derivative takes a staggered kernel, one along another axis is an interpolation of the
input or of the result. -/

namespace HaloMesh

/-- Where a derivative is evaluated and what has to be moved before and after. -/
structure DerivativePlan where
  output : Location
  staggered : Bool
  evaluatedAt : Location
  offset : Offset
  inputTo : Option Location
  resultTo : Option Location
deriving DecidableEq, Repr

namespace Mesh

variable {α : Type}

/-- Settles how to get from a field's location to the wanted one. -/
def plan (m : Mesh α) (axis : Axis) (source : Location) (place : Placement) :
    Outcome DerivativePlan :=
  match place.orElse source with
  | .real target =>
    let plain : DerivativePlan :=
      { output := target, staggered := false, evaluatedAt := source, offset := .centred
        inputTo := none, resultTo := none }
    if target = source then .ok plain
    else if !m.shape.staggerGrids then Outcome.raise (.staggeringOff source target)
    else if target = axis.low then
      .ok { plain with
        staggered := true, evaluatedAt := axis.low, offset := .toLow
        inputTo := if source = .centre then none else some .centre }
    else if source = axis.low then
      .ok { plain with
        staggered := true, evaluatedAt := .centre, offset := .toCentre
        resultTo := if target = .centre then none else some target }
    else .ok { plain with resultTo := some target }
  | p => Outcome.raise (.outputNotReal p)

variable [Scalar α]

/-- The kernel of a method, which must not reach beyond the guard cells. -/
def kernel (m : Mesh α) (axis : Axis) (family : Family) (method : Method) :
    Outcome (Kernel α) := do
  let k : Kernel α ← (m.defaults.resolve axis family method).mapError .raised
  if axis ≠ .z ∧ m.guards axis < (k.width : Int) then
    Outcome.raise (.tooFewGuards family k.method axis k.width (m.guards axis))
  return k

/-- How lines along an axis are read: z lines wrap. -/
def lineReader (m : Mesh α) (f : Field α) (axis : Axis) : LineReader :=
  ⟨f.stride axis, if axis = .z then some (m.axisSize axis) else none⟩

/-- The derivative of whole z lines mode by mode. -/
def spectralDerivative (m : Mesh α) (kind : Kind) (f : Field α) (includeXGuards : Bool) :
    Outcome (Field α) := do
  let modes ← Modes.ofLength f.nz
  let order := if kind = .second then 2 else 1
  let lines := m.evaluationLines f .z includeXGuards
  f.withData (← lines.foldlM (fun data (l : LineSpan) => do
    if 0 ≤ l.base ∧ l.base + (f.nz : Int) ≤ (f.data.size : Int) then
      let i := l.base.toNat
      let line := f.data.extract i (i + f.nz)
      return Field.writeRun data i (modes.derivative line order).toList
    else Outcome.outOfRange) f.zeroLike.data)

/-- A derivative of one field. -/
def derivative (m : Mesh α) (axis : Axis) (kind : Kind) (f : Field α) (place : Placement)
    (method : Method) (includeXGuards : Bool) : Outcome (Field α) := do
  let p ← m.plan axis f.loc place
  if m.axisSize axis = 1 then return f.zeroLike.retag p.output
  let k ← m.kernel axis ⟨kind, p.staggered⟩ method
  let f ← match p.inputTo with
    | some loc => f.interpolate (.real loc)
    | none => pure f
  m.checkLines f axis includeXGuards
  let evaluated ←
    if k.isSpectral then m.spectralDerivative kind f includeXGuards
    else
      let reader := m.lineReader f axis
      let value (base i : Int) : Outcome (Option α) := do
        let w ← Window.gather (reader.read f.data base) i p.offset k.width
        return some (← k.apply w w)
      f.withData (← sweep reader.stride (m.evaluationLines f axis includeXGuards) value
        f.zeroLike.data)
  let r := if p.staggered then evaluated.retag p.evaluatedAt else evaluated
  match p.resultTo with
  | some loc => r.interpolate (.real loc)
  | none => return r

/-- Whether a flow derivative is staggered, and how the velocity is read. The result is at
the field's location. -/
def flowPlan (m : Mesh α) (axis : Axis) (v f : Field α) (place : Placement) :
    Outcome (Bool × Offset) :=
  if place.orElse f.loc ≠ .real f.loc then
    Outcome.raise (.flowOutput axis (place.orElse f.loc) f.loc)
  else if v.loc = f.loc then .ok (false, .centred)
  else if !m.shape.staggerGrids then Outcome.raise (.flowStaggeringOff v.loc f.loc)
  else if v.loc = axis.low ∧ f.loc = .centre then .ok (true, .toCentre)
  else if v.loc = .centre ∧ f.loc = axis.low then .ok (true, .toLow)
  else Outcome.raise (.flowLayout axis v.loc f.loc)

/-- A flow kernel over the lines of a field and a velocity of the same shape. -/
def applyFlow (m : Mesh α) (axis : Axis) (k : Kernel α) (velocityOffset : Offset)
    (v f : Field α) : Outcome (Field α) := do
  m.checkLines f axis false
  let reader := m.lineReader f axis
  let value (base i : Int) : Outcome (Option α) := do
    let fs ← Window.gather (reader.read f.data base) i .centred k.width
    match k.formula with
    | .upwind formula =>
      let vc ← reader.read v.data base i
      return some (formula vc fs)
    | .flow formula =>
      let vs ← Window.gather (reader.read v.data base) i velocityOffset k.width
      return some (formula vs fs)
    | _ => Outcome.outOfRange
  f.withData (← sweep reader.stride (m.evaluationLines f axis false) value f.zeroLike.data)

/-- The upwinded or conservative derivative of a field carried by a velocity. The split
method adds the advective derivative and the field times the derivative of the velocity,
both by their default methods. -/
def flow (m : Mesh α) (axis : Axis) (kind : Kind) (v f : Field α) (place : Placement)
    (method : Method) : Outcome (Field α) := do
  if !v.sameShape f then Outcome.raise .flowShapesDiffer
  let (staggered, offset) ← m.flowPlan axis v f place
  if m.axisSize axis = 1 then return f.zeroLike
  let k ← m.kernel axis ⟨kind, staggered⟩ method
  if k.isSplit then
    let upwind ← m.kernel axis ⟨.upwind, staggered⟩ .standard
    let advected ← m.applyFlow axis upwind offset v f
    let dv ← m.derivative axis .first v (.real f.loc) .standard false
    advected.add (← f.mul dv)
  else m.applyFlow axis k offset v f

end Mesh

end HaloMesh
