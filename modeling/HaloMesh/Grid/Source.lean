import HaloMesh.Error
import HaloMesh.Named
import HaloMesh.Scalar

/-! The named variables a grid comes with: scalars, profiles in x and fields over `(x, y)`.
Fields are global, x counting the boundary columns and y the interior rows only. One name
may stand for variables of several shapes. -/

namespace HaloMesh

structure GridSource (α : Type) where
  scalars : List (String × α)
  profiles : List (String × Array α)
  fields : List (String × Array (Array α))

namespace GridSource

variable {α β : Type}

def empty : GridSource α := ⟨[], [], []⟩

def setScalar (s : GridSource α) (name : String) (v : α) : GridSource α :=
  { s with scalars := Named.assign name v s.scalars }

def setProfile (s : GridSource α) (name : String) (v : Array α) : GridSource α :=
  { s with profiles := Named.assign name v s.profiles }

def setField (s : GridSource α) (name : String) (v : Array (Array α)) : GridSource α :=
  { s with fields := Named.assign name v s.fields }

def hasVariable (s : GridSource α) (name : String) : Bool :=
  (Named.find? s.scalars name).isSome || (Named.find? s.profiles name).isSome ||
    (Named.find? s.fields name).isSome

def found (shape : VariableShape) (name : String) : Option β → Except Error β
  | some v => .ok v
  | none => .error (.entryMissing shape name)

def scalar (s : GridSource α) (name : String) : Except Error α :=
  found .scalar name (Named.find? s.scalars name)

def profile (s : GridSource α) (name : String) : Except Error (Array α) :=
  found .profile name (Named.find? s.profiles name)

def field (s : GridSource α) (name : String) : Except Error (Array (Array α)) :=
  found .field name (Named.find? s.fields name)

/-- Every name in alphabetical order, once for each shape it stands for. -/
def names (s : GridSource α) : List String :=
  (s.scalars.map Prod.fst ++ s.profiles.map Prod.fst ++ s.fields.map Prod.fst).mergeSort
    fun a b => decide (a ≤ b)

end GridSource

end HaloMesh
