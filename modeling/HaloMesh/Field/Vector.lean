import HaloMesh.Field.Basic

/-! Three components of a vector, held with lower or with upper indices. The components may
share a location or lie each half a cell down along its own axis. -/

namespace HaloMesh

/-- Three components and whether they are the covariant ones. -/
structure Vector3 (β : Type) where
  x : β
  y : β
  z : β
  covariant : Bool
deriving Repr

namespace Vector3

variable {α β γ : Type}

def component (v : Vector3 β) : Axis → β
  | .x => v.x
  | .y => v.y
  | .z => v.z

def components (v : Vector3 β) : List β := [v.x, v.y, v.z]

/-- Computes the components one after the other. -/
def mapM {m : Type → Type} [Monad m] (v : Vector3 β) (f : β → m γ) : m (Vector3 γ) := do
  let x ← f v.x
  let y ← f v.y
  let z ← f v.z
  return ⟨x, y, z, v.covariant⟩

/-- Combines components pairwise, one after the other. -/
def zipWithM {m : Type → Type} [Monad m] (v w : Vector3 β) (f : β → β → m γ) :
    m (Vector3 γ) := do
  let x ← f v.x w.x
  let y ← f v.y w.y
  let z ← f v.z w.z
  return ⟨x, y, z, v.covariant⟩

/-- The common location of the components, or the staggered layout. -/
def location (v : Vector3 (Field α)) : Outcome Placement :=
  if v.x.loc = v.y.loc ∧ v.y.loc = v.z.loc then .ok (.real v.x.loc)
  else if v.x.loc = .xlow ∧ v.y.loc = .ylow ∧ v.z.loc = .zlow then .ok .shifted
  else Outcome.raise (.componentLocations v.x.loc v.y.loc v.z.loc)

def checkKind (v w : Vector3 β) (op : String) : Outcome Unit :=
  if v.covariant ≠ w.covariant then Outcome.raise (.vectorKindsDiffer op) else .ok ()

variable [Scalar α]

/-- Zero components at a location or in the staggered layout. -/
def zero (nx ny nz : Int) (place : Placement) (covariant : Bool) :
    Outcome (Vector3 (Field α)) := do
  let (px, py, pz) := place.expand
  let x ← Field.zero nx ny nz px
  let y ← Field.zero nx ny nz py
  let z ← Field.zero nx ny nz pz
  return ⟨x, y, z, covariant⟩

def add (v w : Vector3 (Field α)) : Outcome (Vector3 (Field α)) := do
  v.checkKind w "Add"
  v.zipWithM w Field.add

def sub (v w : Vector3 (Field α)) : Outcome (Vector3 (Field α)) := do
  v.checkKind w "Sub"
  v.zipWithM w Field.sub

def scale (v : Vector3 (Field α)) (s : α) : Vector3 (Field α) :=
  ⟨v.x.scale s, v.y.scale s, v.z.scale s, v.covariant⟩

/-- Every component times a scalar field. -/
def mul (v : Vector3 (Field α)) (f : Field α) : Outcome (Vector3 (Field α)) :=
  v.mapM fun c => c.mul f

end Vector3

end HaloMesh
