import HaloMesh.Json.Value
import HaloMesh.Text.Case
import HaloMesh.Yaml.Reference

/-! Data files as data exchange. Keys become texts, and where a text is wanted a number or a
truth value becomes one too. -/

namespace HaloMesh.Yaml

/-- What a place in a file is to hold, as far as it matters to what may stand there. -/
inductive Shape where
  | text
  | plain
  | list (item : Shape)
  | table (item : Shape)
  | record (fields : List (String × Shape))

namespace Shape

/-- What the items of a list are to be. -/
def item : Shape → Shape
  | list s => s
  | _ => plain

/-- What the entry with a key is to be. A field of a record is found without regard to case,
its very name going first. -/
def entry (key : String) : Shape → Shape
  | table s => s
  | record fields =>
    let exact := fields.find? fun f => f.1 = key
    ((exact.or (fields.find? fun f => Text.sameName f.1 key)).map Prod.snd).getD plain
  | _ => plain

end Shape

namespace Value

/-- The text of a key. Nothing and numbers beyond the signed range are no keys. -/
def keyText? : Value → Option String
  | flag b => some (if b then "true" else "false")
  | whole n => some (toString n)
  | real (.infinite negative) => some (if negative then "-.inf" else ".inf")
  | real .undefined => some ".nan"
  | real n => some (Decimal.singleText n.toDouble)
  | text s => some s
  | _ => none

/-- The type of a value that is no key. -/
def keyType : Value → String
  | null => "%!s(<nil>)"
  | word _ => "uint64"
  | _ => "interface \x7b\x7d"

/-- A plain value where a text is wanted. -/
def asText : Value → Json
  | null => .null
  | flag b => .text (if b then "true" else "false")
  | whole n => .text (toString n)
  | word n => .text (toString n)
  | real n => .text (Decimal.singleText n.toDouble)
  | text s => .text s
  | _ => .null

/-- A plain value in data exchange. -/
def asPlain : Value → Json
  | null => .null
  | flag b => .flag b
  | whole n => .number (toString n)
  | word n => .number (toString n)
  | real n => .number (Decimal.dataText n.toDouble)
  | text s => .text s
  | _ => .null

mutual

/-- A value in data exchange, the entries of tables in the order of their keys. -/
def toJson : Value → Shape → Except String Json
  | list items, shape => return .list (← itemsToJson items shape.item)
  | table entries, shape => return .object (Named.sorted (← entriesToJson entries shape))
  | v, .text => return v.asText
  | v, _ => return v.asPlain

def itemsToJson : List Value → Shape → Except String (List Json)
  | [], _ => return []
  | v :: rest, shape => do
    let j ← v.toJson shape
    return j :: (← itemsToJson rest shape)

def entriesToJson : List (Value × Value) → Shape → Except String (List (String × Json))
  | [], _ => return []
  | (k, v) :: rest, shape => do
    match k.keyText? with
    | none =>
      throw (s!"Unsupported map key of type: {k.keyType}, key: {k.shownAlone}, " ++
        s!"value: {v.shownAlone}")
    | some key =>
      let j ← v.toJson (shape.entry key)
      return (key, j) :: (← entriesToJson rest shape)

end

end Value

/-- The names of numbers that data exchange has no form for. -/
def foreignNumbers : List String := ["NaN", "+Inf", "-Inf"]

mutual

/-- The first number in a value that data exchange has no form for. -/
def foreignNumber? : Json → Option String
  | .number digits => if digits ∈ foreignNumbers then some digits else none
  | .list items => foreignItem? items
  | .object entries => foreignMember? entries
  | _ => none

def foreignItem? : List Json → Option String
  | [] => none
  | j :: rest => (foreignNumber? j).or (foreignItem? rest)

def foreignMember? : List (String × Json) → Option String
  | [] => none
  | (_, j) :: rest => (foreignNumber? j).or (foreignMember? rest)

end

/-- A value in data exchange, all numbers of which have to be finite. -/
def exchange (v : Value) (shape : Shape) : Except String Json := do
  let j ← v.toJson shape
  match foreignNumber? j with
  | some digits => throw s!"json: unsupported value: {digits}"
  | none => return j

end HaloMesh.Yaml
