import HaloMesh.Field.Vector
import HaloMesh.Mesh.Basic

/-! Grid variables as fields over a block. Guard rows beyond the interior are filled by linear
continuation; the seams among them are overwritten by the next exchange. -/

namespace HaloMesh.Mesh

variable {α : Type} [Scalar α]

/-- A whole number from the grid, the given one with an error if there is none. -/
def getWhole (m : Mesh α) (name : String) (dflt : Int) : Int × Option Error :=
  if m.source.hasVariable name then
    match m.source.scalar name with
    | .ok x => (Scalar.round x, none)
    | .error e => (dflt, some e)
  else (dflt, some (.variableMissing name))

def getReal (m : Mesh α) (name : String) (dflt : α) : α × Option Error :=
  if m.source.hasVariable name then
    match m.source.scalar name with
    | .ok x => (x, none)
    | .error e => (dflt, some e)
  else (dflt, some (.variableMissing name))

/-- The value of a grid variable at global column and row, once its size is right. -/
def variableValues (m : Mesh α) (name : String) : Except Error (Int → Int → Outcome α) :=
  match m.source.profile name with
  | .ok p =>
    if (p.size : Int) ≠ m.shape.nx then .error (.config (.profileLength name p.size m.shape.nx))
    else .ok fun xg _ => elementAt p xg
  | .error _ =>
    match m.source.field name with
    | .error e => .error e
    | .ok a =>
      if (a.size : Int) ≠ m.shape.nx then
        .error (.config (.fieldColumns name a.size m.shape.nx))
      else
        match a.toList.find? fun col => (col.size : Int) ≠ m.shape.ny with
        | some col => .error (.config (.fieldRows name col.size m.shape.ny))
        | none => .ok fun xg yg => do elementAt (← elementAt a xg) yg

/-- A value in a guard row from the two rows next to it, or from the nearest one if the
block has no second. -/
def continued (near : α) (next : Option α) : α :=
  match next with
  | some b => 2 * near - b
  | none => near

/-- The guard rows beyond one end of a column, `count` of them outwards from the edge row
`a` with the next row inside `b`. The second guard row goes on from the first. -/
def continuation : (count : Nat) → (a : α) → (b : Option α) → List α
  | 0, _, _ => []
  | count + 1, a, b =>
    let v := continued a b
    v :: continuation count v (some a)

/-- All rows of a column from its interior rows. -/
def extendedColumn (m : Mesh α) (interior : List α) : List α :=
  let rows := interior.length
  let myg := m.shape.myg.toNat
  let one (first second : Option α) : List α :=
    match first with
    | some a => continuation myg a second
    | none => []
  let below := one interior[0]? interior[1]?
  let above := one interior[rows - 1]? (if rows < 2 then none else interior[rows - 2]?)
  below.reverse ++ interior ++ above

/-- A field from the grid: a scalar, a profile in x or an array over `(x, y)`, the first of
these that the name stands for. A missing variable gives a field of the given value and
an error. -/
def getField (m : Mesh α) (name : String) (dflt : α) : Outcome (Field α × Option Error) := do
  let f ← Field.const m.localNx m.localNy m.localNz dflt (.real .centre)
  if !m.source.hasVariable name then return (f, some (.variableMissing name))
  match m.source.scalar name with
  | .ok v => return (f.fill v, none)
  | .error _ =>
    match m.variableValues name with
    | .error e => return (f, some e)
    | .ok value =>
      f.checkFits
      let columns ← (Index.span 0 (m.localNx - 1)).mapM fun x => do
        let interior ← (Index.span m.ystart m.yend).mapM fun y =>
          value (m.globalX x) (m.globalY y)
        return m.extendedColumn interior
      let g ← f.withData (columns.flatten.flatMap fun v => List.replicate f.nz v).toArray
      return (g, none)

/-- A vector from the grid variables that end in the axis names. Missing components are
zero, and all that went wrong is told. -/
def getVector (m : Mesh α) (name : String) (covariant : Bool) :
    Outcome (Vector3 (Field α) × Option Error) := do
  let (x, ex) ← m.getField (name ++ "_x") 0
  let (y, ey) ← m.getField (name ++ "_y") 0
  let (z, ez) ← m.getField (name ++ "_z") 0
  return (⟨x, y, z, covariant⟩, Error.join? (ex.toList ++ ey.toList ++ ez.toList))

end HaloMesh.Mesh
