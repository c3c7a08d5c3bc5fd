import HaloMesh.Yaml.Tag

/-! The words a data file is cut into. Lines of a common indentation give the same words as
brackets: a collection starts, has items or keys and values, and ends. -/

namespace HaloMesh.Yaml

inductive Token where
  | streamStart
  | streamEnd
  | directive (d : Directive)
  | documentStart
  | documentEnd
  | blockItems
  | blockEntries
  | blockEnd
  | flowItems
  | flowItemsEnd
  | flowEntries
  | flowEntriesEnd
  | item
  | comma
  | key
  | value
  | alias (name : String)
  | anchor (name : String)
  | tag (t : Tag)
  /-- A text, and whether it stands without quotes. -/
  | text (s : String) (plain : Bool)
deriving DecidableEq, Repr

/-- A word and where it starts. -/
structure Placed where
  token : Token
  mark : Mark
deriving DecidableEq, Repr

end HaloMesh.Yaml
