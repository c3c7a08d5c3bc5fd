import HaloMesh.Config.Dotenv
import HaloMesh.Config.Hcl.Held
import HaloMesh.Config.Ini
import HaloMesh.Config.Properties
import HaloMesh.Toml.Node

/-! The formats of configuration files, which are told apart by how their names end. -/

namespace HaloMesh.Config

variable {α : Type} [Scalar α]

inductive Format where
  | json | toml | yaml | properties | hcl | dotenv | ini
deriving DecidableEq, Repr

namespace Format

/-- The endings of file names in the order in which files are looked for. -/
def endings : List (String × Format) :=
  [("json", json), ("toml", toml), ("yaml", yaml), ("yml", yaml), ("properties", properties),
    ("props", properties), ("prop", properties), ("hcl", hcl), ("dotenv", dotenv),
    ("env", dotenv), ("ini", ini)]

/-- The settings of a text that follows the format. -/
def read (f : Format) (text : String) : Except Refusal (Entries α) :=
  let known (entries : Option (Entries α)) : Except Refusal (Entries α) :=
    match entries with
    | some entries => .ok entries
    | none => .error .malformed
  match f with
  | json => known (ofJsonText? text)
  | toml => known (Toml.read? text)
  | yaml => known (ofYaml? text)
  | properties => known (Properties.read? text)
  | hcl => Hcl.read text
  | dotenv => known (Dotenv.read? text)
  | ini => known (Ini.read? text)

end Format

/-- The part of a file name behind its last dot. -/
def ending? (path : String) : Option String :=
  let name := (path.splitOn "/").getLastD ""
  if name.contains '.' then (name.splitOn ".").getLast? else none

def formatOf? (path : String) : Option Format :=
  (ending? path).bind (Named.find? Format.endings)

/-- The files that are looked for without being named. -/
def defaultPaths (home : String) : List String :=
  Format.endings.map fun (ending, _) => home ++ "/.plasmamesh." ++ ending

end HaloMesh.Config
