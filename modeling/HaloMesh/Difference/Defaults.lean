import HaloMesh.Options
import HaloMesh.Difference.Table

/-! The method each axis and family uses when a call leaves the choice open. Settings in the
sections `ddx`, `ddy` and `ddz` choose it: the most specific key that is set wins, and a
method that reaches a family only through a broader key is ignored where the family does
not have it. -/

namespace HaloMesh

structure Defaults where
  chosen : List ((Axis × Family) × Method)
deriving DecidableEq, Repr

namespace Defaults

/-- The option section of an axis. -/
def sectionName (axis : Axis) : String := "dd" ++ axis.name

/-- The keys a family is looked up under, the most specific first. -/
def keys (family : Family) : List String :=
  (if family.staggered then [family.key] else []) ++ [family.kind.key, "all"]

variable {α : Type} [Scalar α]

/-- The choice for one axis and family, with a warning if a setting was passed over. -/
def choose (options : Options α) (axis : Axis) (family : Family) :
    Except Error (Method × List String) :=
  let names := (keys family).map fun k => sectionName axis ++ "." ++ k
  match names.find? options.isSet with
  | none => .ok (family.fallback, [])
  | some name =>
    let value := options.text name ""
    match Method.ofKey? value with
    | none => .error (.within (.option name) (.unknownOptionMethod value family))
    | some method =>
      match family.admit axis method with
      | .ok _ => .ok (method, [])
      | .error e =>
        if name = sectionName axis ++ "." ++ family.key then
          .error (.within (.option name) e)
        else
          .ok (family.fallback,
            ["derivative method not in table, using default " ++
              s!"option={name} table={family.key} method={method.key}"])

/-- Every axis with every family that has methods. -/
def places : List (Axis × Family) :=
  Axis.all.flatMap fun axis => Family.tables.map fun family => (axis, family)

/-- The defaults an option set asks for, and the warnings on the way. -/
def read (options : Options α) : Except Error (Defaults × List String) := do
  let chosen ← places.mapM fun place => do
    let (method, warnings) ← choose options place.1 place.2
    return ((place, method), warnings)
  return (⟨chosen.map Prod.fst⟩, chosen.flatMap Prod.snd)

/-- The default method of an axis and family. -/
def method (d : Defaults) (axis : Axis) (family : Family) : Method :=
  match d.chosen.find? fun c => c.1 = (axis, family) with
  | some (_, .standard) => family.fallback
  | some (_, m) => m
  | none => family.fallback

/-- The kernel of a method, the default method if none is chosen. -/
def resolve (d : Defaults) (axis : Axis) (family : Family) (m : Method) :
    Except Error (Kernel α) :=
  Kernel.lookup axis family (if m = .standard then d.method axis family else m)

end Defaults

end HaloMesh
