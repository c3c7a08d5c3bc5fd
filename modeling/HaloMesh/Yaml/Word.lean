import HaloMesh.Text.Bytes
import HaloMesh.Text.Date
import HaloMesh.Yaml.Value

/-! What a word means. Without quotes or a tag a word stands for what it looks like: nothing, a
truth value, a number, or itself. A tag tells what it should be. -/

namespace HaloMesh.Yaml

open Text (Number)

/-- The words with a meaning of their own. -/
def wordTable : List (List String × Value) :=
  [ (["y", "Y", "yes", "Yes", "YES", "true", "True", "TRUE", "on", "On", "ON"], .flag true),
    (["n", "N", "no", "No", "NO", "false", "False", "FALSE", "off", "Off", "OFF"], .flag false),
    (["", "~", "null", "Null", "NULL"], .null),
    ([".nan", ".NaN", ".NAN"], .real .undefined),
    ([".inf", ".Inf", ".INF", "+.inf", "+.Inf", "+.INF"], .real (.infinite false)),
    (["-.inf", "-.Inf", "-.INF"], .real (.infinite true)) ]

/-- A whole number, within the signed range or beyond it. -/
def wholeValue? (signed : Except Text.NumberFault Int) (unsigned : Except Text.NumberFault Nat) :
    Option Value :=
  match signed, unsigned with
  | .ok n, _ => some (.whole n)
  | _, .ok n => some (.word n)
  | _, _ => none

/-- A number in base two, behind its mark. -/
def binary? : List Char → Option Value
  | '0' :: 'b' :: ds =>
    let unsigned := if ds.isEmpty then .error .malformed else Text.accumulate 2 false ds 0
    wholeValue? (Text.wholeIn 2 ds) unsigned
  | '-' :: '0' :: 'b' :: ds => (Text.wholeIn 2 ('-' :: ds)).toOption.map .whole
  | _ => none

/-- A word that starts like a number. Underscores only divide its digits. -/
def numeral? (s : String) : Option Value :=
  let plain := s.toList.filter (· ≠ '_')
  let decimal :=
    if Text.isDecimal (String.ofList plain) then
      (Text.number? (String.ofList plain)).map Value.real
    else none
  (wholeValue? (Text.whole plain) (Text.unsigned plain)).or (decimal.or (binary? plain))

/-- The meaning of a word by what it looks like. -/
def meaning (s : String) : Value :=
  match wordTable.find? fun e => s ∈ e.1 with
  | some (_, v) => v
  | none =>
    match s.toList with
    | [] => .null
    | c :: _ =>
      if c = '.' then ((Text.number? s).map Value.real).getD (.text s)
      else if Text.isDigit c || c = '+' || c = '-' then (numeral? s).getD (.text s)
      else .text s

/-- How the tags start that every data file knows. -/
def standardStem : String := "tag:yaml.org,2002:"

/-- The kind of a plain value, as tags name it. -/
def kindName : Value → String
  | .null => "null"
  | .flag _ => "bool"
  | .whole _ => "int"
  | .word _ => "int"
  | .real _ => "float"
  | _ => "str"

/-- The tags of kinds that a word can turn out to be. -/
def kindTags : List String := ["bool", "int", "float", "null", "timestamp"]

/-- A word whose tag names a kind. A whole number is a fraction too, if it is within the signed
range; a date stays as it is written. -/
def meaningAs (kind s : String) : Except String Value :=
  let v := meaning s
  if kind = "timestamp" && Text.isDate s then .ok (.text s)
  else if kindName v = kind then .ok v
  else
    match kind, v with
    | "float", .whole n => .ok (.real (.finite ⟨decide (n < 0), n.natAbs, 0⟩))
    | _, _ => .error s!"yaml: cannot decode !!{kindName v} \x60{s}\x60 as a !!{kind}"

/-- The value of a text with its tag, `open_` if its meaning is left to what it looks like. A
tag that names no kind leaves a text as it is. -/
def textValue (s tag : String) (open_ : Bool) : Except String Value :=
  if tag = "" then .ok (if open_ then meaning s else .text s)
  else if tag = standardStem ++ "binary" then
    match Text.ofBase64? s with
    | some decoded => .ok (.text decoded)
    | none => .error "yaml: !!binary value contains invalid base64 data"
  else
    match kindTags.find? fun kind => tag = standardStem ++ kind with
    | some kind => meaningAs kind s
    | none => .ok (.text s)

end HaloMesh.Yaml
