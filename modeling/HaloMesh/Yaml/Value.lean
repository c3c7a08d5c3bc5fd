import HaloMesh.Decimal.Binary
import HaloMesh.Text.Number
import HaloMesh.Text.Quoted

/-! Values of a data file. -/

namespace HaloMesh.Yaml

inductive Value where
  | null
  | flag (b : Bool)
  /-- A whole number within the signed range of 64 bits. -/
  | whole (n : Int)
  /-- A whole number beyond the signed range of 64 bits. -/
  | word (n : Nat)
  | real (n : Text.Number)
  | text (s : String)
  | list (items : List Value)
  | table (entries : List (Value × Value))

namespace Value

/-- Whether two values are one key. An undefined number is never the same as another. -/
def sameKey : Value → Value → Bool
  | null, null => true
  | flag a, flag b => a = b
  | whole a, whole b => a = b
  | word a, word b => a = b
  | real a, real b => a.toDouble == b.toDouble
  | text a, text b => a = b
  | _, _ => false

/-- Whether a value is a collection, which is no key. -/
def isCollection : Value → Bool
  | list _ => true
  | table _ => true
  | _ => false

/-- Gives a key a value, in place if it had one. -/
def put (key value : Value) : List (Value × Value) → List (Value × Value)
  | [] => [(key, value)]
  | entry :: rest =>
    if sameKey entry.1 key then (entry.1, value) :: rest else entry :: put key value rest

/-- The order in which keys are shown: by kind, and within a kind by value. -/
def keyBefore : Value → Value → Bool
  | null, _ => true
  | _, null => false
  | flag a, flag b => !a || b
  | flag _, _ => true
  | _, flag _ => false
  | real a, real b => decide (a.toDouble ≤ b.toDouble) || a.toDouble.isNaN
  | real _, _ => true
  | _, real _ => false
  | whole a, whole b => decide (a ≤ b)
  | whole _, _ => true
  | _, whole _ => false
  | text a, text b => decide (a ≤ b)
  | text _, _ => true
  | _, text _ => false
  | word a, word b => decide (a ≤ b)
  | _, _ => true

/-- The texts of entries, in the order of their keys. -/
def joinEntries (entries : List (Value × String)) : String :=
  ", ".intercalate ((entries.mergeSort fun a b => keyBefore a.1 b.1).map Prod.snd)

mutual

/-- A value in a message, with the types of its collections. -/
def shown : Value → String
  | null => "interface \x7b\x7d(nil)"
  | flag b => if b then "true" else "false"
  | whole n => toString n
  | word n => "0x" ++ String.ofList (Nat.toDigits 16 n)
  | real n => Decimal.messageText n.toDouble
  | text s => Text.quoted s
  | list items => "[]interface \x7b\x7d\x7b" ++ ", ".intercalate (shownItems items) ++ "\x7d"
  | table entries =>
    "map[interface \x7b\x7d]interface \x7b\x7d\x7b" ++ joinEntries (shownEntries entries) ++ "\x7d"

def shownItems : List Value → List String
  | [] => []
  | v :: rest => v.shown :: shownItems rest

def shownEntries : List (Value × Value) → List (Value × String)
  | [] => []
  | (k, v) :: rest => (k, k.shown ++ ":" ++ v.shown) :: shownEntries rest

end

/-- A value that a message is about. -/
def shownAlone : Value → String
  | null => "<nil>"
  | v => v.shown

end Value

end HaloMesh.Yaml
