import HaloMesh.Metric.Conversion

/-! Derivatives in units of the metric: those in index units divided by the grid spacing at
the result. Derivatives along y are taken in the field aligned frame. -/

namespace HaloMesh

/-- How a derivative is to be taken: by which method, where its result is wanted, and
whether a derivative along z includes the guard columns. -/
structure Scheme where
  method : Method := .standard
  place : Placement := .inherit
  includeXGuards : Bool := false

/-- How often a derivative of a kind is divided by the spacing. -/
def Kind.order : Kind → Nat
  | .second => 2
  | .fourth => 4
  | _ => 1

/-- The usual name of a derivative, such as `D2DX2`; those of a flow start with its letter. -/
def Kind.derivativeName (kind : Kind) (axis : Axis) : String :=
  let x := Text.upper axis.name
  match kind with
  | .first => "DD" ++ x
  | .second => "D2D" ++ x ++ "2"
  | .fourth => "D4D" ++ x ++ "4"
  | .upwind => "VDD" ++ x
  | .flux => "FDD" ++ x

/-- Axis and kind of a derivative by its name. -/
def derivativeNamed? (name : String) : Option (Axis × Kind) :=
  (Axis.all.flatMap fun axis => Kind.all.map fun kind => (axis, kind)).find? fun (axis, kind) =>
    kind.derivativeName axis = name

variable {α : Type} [Scalar α]

/-- A field divided by a metric quantity, which has to be of the same shape and at the same
location. Metric quantities are constant in z, so this holds in any frame. -/
def Field.dividedBy (f metric : Field α) : Outcome (Field α) :=
  if !f.sameShape metric ∨ f.loc ≠ metric.loc then
    Outcome.raise (.metricMismatch metric.loc f.loc)
  else f.withData (Array.zipWith (· / ·) f.data metric.data)

/-- Divides several times by the same quantity. -/
def Field.dividedRepeatedly (metric : Field α) : Nat → Field α → Outcome (Field α)
  | 0, f => .ok f
  | times + 1, f => do dividedRepeatedly metric times (← f.dividedBy metric)

namespace RankM

/-- Brings a derivative in index units to those of the metric at its location. -/
def scaled (axis : Axis) (order : Nat) (r : Field α) : RankM α (Field α) := do
  let c ← coordinatesAt (.real r.loc)
  match axis with
  | .x => ofOutcome (Field.dividedRepeatedly c.dx order r)
  | .y => ofOutcome (Field.dividedRepeatedly c.dy order r)
  | .z => return r.scale (1 / Scalar.power c.dz order)

/-- A derivative of one field. -/
def derivative (axis : Axis) (kind : Kind) (f : Field α) (s : Scheme) : RankM α (Field α) := do
  let m ← mesh
  let plain (f : Field α) : RankM α (Field α) :=
    ofOutcome (m.derivative axis kind f s.place s.method s.includeXGuards)
  let r ←
    if axis = .y && !f.aligned then do fromAligned (← plain (← toAligned f))
    else plain f
  scaled axis kind.order r

/-- The derivative of a field carried by a velocity, upwinded or in conservative form. The
velocity decides whether the operands are aligned already. -/
def flow (axis : Axis) (kind : Kind) (v f : Field α) (s : Scheme) : RankM α (Field α) := do
  let m ← mesh
  let plain (v f : Field α) : RankM α (Field α) :=
    ofOutcome (m.flow axis kind v f s.place s.method)
  let r ←
    if axis = .y && !v.aligned then do
      let v ← toAligned v
      let f ← toAligned f
      fromAligned (← plain v f)
    else plain v f
  scaled axis 1 r

end RankM

end HaloMesh
