import HaloMesh.Grid.Source
import HaloMesh.Json.Decode
import HaloMesh.Yaml.Exchange
import HaloMesh.Yaml.Writer

/-! Grid files: three tables of scalars, profiles and fields. -/

namespace HaloMesh.GridSource

open Json (Place Taken Fields)

variable {α : Type} [Scalar α]

def place : Place := { record := "Memory" }

def takeRow (place : Place) (j : Json) : Taken (Array α) :=
  let (items, e) := j.takeList (fun place j => j.takeReal place 0) "[]float64" place
  (items.toArray, e)

def takeRows (place : Place) (j : Json) : Taken (Array (Array α)) :=
  let (items, e) := j.takeList takeRow "[][]float64" place
  (items.toArray, e)

def tables : Fields (GridSource α) :=
  [ ("scalars", fun s j =>
      let (b, e) := j.takeTable (fun place j => j.takeReal place 0) "map[string]float64"
        (place.entry "scalars") s.scalars
      ({ s with scalars := b }, e)),
    ("profiles", fun s j =>
      let (b, e) := j.takeTable takeRow "map[string][]float64" (place.entry "profiles") s.profiles
      ({ s with profiles := b }, e)),
    ("fields", fun s j =>
      let (b, e) := j.takeTable takeRows "map[string][][]float64" (place.entry "fields") s.fields
      ({ s with fields := b }, e)) ]

/-- Reads a grid file. -/
def parse (text : String) : Except Error (GridSource α) := do
  let inGrid (detail : String) : Error := .within .readingGrid (.malformed detail)
  let fault (detail : String) : Error := inGrid s!"error converting YAML to JSON: {detail}"
  let v ← (Yaml.read text).mapError fault
  let j ← (Yaml.exchange v .plain).mapError fault
  let misread (detail : String) : Error := inGrid s!"error unmarshaling JSON: {detail}"
  match j.depthFault?, j.takeRecord tables "griddata.Memory" place (empty : GridSource α) with
  | some detail, _ => throw (misread detail)
  | none, (s, none) => return s
  | none, (_, some m) => throw (misread m.message)

/-! Writing a grid file. It takes the form of data exchange first, which a data file may have
as well, and is then laid out in lines. -/

/-- A number, which has to be finite. -/
def numberJson (x : α) : Except Error Json :=
  if Scalar.isUndefined x || Scalar.isInfinite x then
    .error (.malformed s!"json: unsupported value: {Scalar.text x}")
  else .ok (.number (Scalar.dataText x))

def rowJson (row : Array α) : Except Error Json := do
  return .list (← row.toList.mapM numberJson)

def rowsJson (rows : Array (Array α)) : Except Error Json := do
  return .list (← rows.toList.mapM rowJson)

/-- A table in the order of names. -/
def tableJson {β : Type} (item : β → Except Error Json) (entries : List (String × β)) :
    Except Error Json := do
  return .object (← (Named.sorted entries).mapM fun (name, b) => do return (name, ← item b))

def toJson (s : GridSource α) : Except Error Json := do
  let scalars ← tableJson numberJson s.scalars
  let profiles ← tableJson rowJson s.profiles
  let fields ← tableJson rowsJson s.fields
  return .object [("scalars", scalars), ("profiles", profiles), ("fields", fields)]

/-- The text of a grid file. -/
def render (s : GridSource α) : Except Error String := do
  let v ← (Yaml.read (← s.toJson).render).mapError .malformed
  return Yaml.write v

end HaloMesh.GridSource
