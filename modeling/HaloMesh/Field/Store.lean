import HaloMesh.Field.Vector

/-! Fields held by reference. Several names, vectors and running exchanges can share one field:
a change through any of them is seen by all. -/

namespace HaloMesh

/-- The place of a field in a store. -/
structure FieldRef where
  slot : Nat
deriving DecidableEq, Repr

structure Store (α : Type) where
  fields : Array (Field α)

namespace Store

variable {α : Type}

def empty : Store α := ⟨#[]⟩

/-- A new place for a field. -/
def alloc (s : Store α) (f : Field α) : FieldRef × Store α :=
  (⟨s.fields.size⟩, ⟨s.fields.push f⟩)

def get? (s : Store α) (r : FieldRef) : Option (Field α) := s.fields[r.slot]?

def put (s : Store α) (r : FieldRef) (f : Field α) : Store α :=
  ⟨s.fields.setIfInBounds r.slot f⟩

/-- The values of a field replaced by those of another; its tags stay. -/
def putValues (s : Store α) (r : FieldRef) (values : Field α) : Store α :=
  match s.get? r with
  | none => s
  | some f =>
    match f.withData values.data with
    | .ok g => s.put r g
    | .error _ => s

/-- Puts new values into several places, one after the other. -/
def putAllValues (s : Store α) : List FieldRef → List (Field α) → Store α
  | r :: refs, f :: fields => (s.putValues r f).putAllValues refs fields
  | _, _ => s

end Store

end HaloMesh
