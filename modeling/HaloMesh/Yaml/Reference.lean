import HaloMesh.Yaml.Document
import HaloMesh.Yaml.Word

/-! The value of a document: references are replaced by what they refer to, and a table takes
over the entries of those that it merges. References that multiply a small text into a large
value are refused. -/

namespace HaloMesh.Yaml

/-- What was counted while references were followed. -/
structure Tally where
  values : Nat := 1
  /-- How many values were reached through a reference. -/
  referred : Nat := 0
  /-- The numbers of the references that are being followed. -/
  active : List Nat := []

namespace Tally

/-- Up to so many values nearly all of them may come from references. -/
def freeValues : Nat := 400000

/-- From so many values on hardly any of them may come from references. -/
def manyValues : Nat := 4000000

/-- Whether too many values come from references. The share that may do so falls from 99 of a
hundred to ten. -/
def isExcessive (t : Tally) : Bool :=
  let range := manyValues - freeValues
  let share :=
    if t.values ≤ freeValues then 99 * range
    else if manyValues ≤ t.values then 10 * range
    else 99 * range - 89 * (t.values - freeValues)
  decide (100 < t.referred) && decide (1000 < t.values) &&
    decide (t.values * share < 100 * range * t.referred)

/-- One more value. -/
def next (t : Tally) : Tally :=
  { t with
    values := t.values + 1
    referred := if t.active.isEmpty then t.referred else t.referred + 1 }

end Tally

/-- Following references needs the parts of a document by number. -/
abbrev FollowM := ReaderT (List (Nat × Node)) (StateT Tally (Except String))

namespace FollowM

/-- Counts a value. -/
def count : FollowM Unit := do
  modify Tally.next
  if (← get).isExcessive then throw "yaml: document contains excessive aliasing"

def part? (number : Nat) : FollowM (Option Node) := do
  return ((← read).find? fun p => p.1 = number).map Prod.snd

/-- Follows a reference, unless it is being followed already. -/
def through {β : Type} (name : String) (number part : Nat) (follow : Node → FollowM β) :
    FollowM β := do
  if (← get).active.contains number then throw s!"yaml: anchor '{name}' value contains itself"
  match ← part? part with
  | none => throw s!"yaml: unknown anchor '{name}' referenced"
  | some node =>
    modify fun t => { t with active := number :: t.active }
    let b ← follow node
    modify fun t => { t with active := t.active.drop 1 }
    return b

/-- Whether a node is a table or refers to one. -/
def leadsToTable : Node → FollowM Bool
  | .table _ => return true
  | .alias _ _ part => return (← part? part).any Node.isTable
  | _ => return false

end FollowM

/-- Whether a key asks for the entries of another table. -/
def isMergeKey : Node → Bool
  | .text s tag open_ => s = "<<" && (open_ || tag = standardStem ++ "merge")
  | _ => false

/-- A key as its text. A text that means nothing is an empty key. -/
def nameOf (s tag : String) (open_ : Bool) : Except String Value := do
  match ← textValue s tag open_ with
  | .null => return .text ""
  | .text s => return .text s
  | _ => return .text s

def mergeRefused : String := "yaml: map merge requires map or sequence of maps as the value"

open FollowM

mutual

def valueOf : (fuel : Nat) → Node → FollowM Value
  | 0, _ => throw "yaml: document contains excessive aliasing"
  | fuel + 1, node => do
    count
    match node with
    | .text s tag open_ => liftM (textValue s tag open_)
    | .list items => return .list (← itemsOf fuel items)
    | .table entries => return .table (← entriesOf fuel false entries [])
    | .alias name number part => through name number part (valueOf fuel)

def itemsOf : (fuel : Nat) → List Node → FollowM (List Value)
  | 0, _ => throw "yaml: document contains excessive aliasing"
  | _, [] => return []
  | fuel + 1, node :: rest => do
    let v ← valueOf fuel node
    return v :: (← itemsOf fuel rest)

/-- A key of a table, `named` if it is wanted as text. -/
def keyOf : (fuel : Nat) → (named : Bool) → Node → FollowM Value
  | 0, _, _ => throw "yaml: document contains excessive aliasing"
  | fuel + 1, named, node => do
    match named, node with
    | true, .text s tag open_ =>
      count
      liftM (nameOf s tag open_)
    | true, .alias name number part =>
      count
      through name number part (keyOf fuel true)
    | _, _ =>
      let key ← valueOf fuel node
      if key.isCollection then throw s!"yaml: invalid map key: {key.shown}"
      return key

/-- Adds the entries of a table to those before, one after the other. -/
def entriesOf : (fuel : Nat) → (named : Bool) → List (Node × Node) → List (Value × Value) →
    FollowM (List (Value × Value))
  | 0, _, _, _ => throw "yaml: document contains excessive aliasing"
  | _, _, [], entries => return entries
  | fuel + 1, named, (k, v) :: rest, entries => do
    if isMergeKey k then entriesOf fuel named rest (← merged fuel named v entries)
    else
      let key ← keyOf fuel named k
      let value ← valueOf fuel v
      entriesOf fuel named rest (Value.put key value entries)

/-- Adds the entries of a table, or of a list of tables, the first of which goes before the
others. -/
def merged : (fuel : Nat) → (named : Bool) → Node → List (Value × Value) →
    FollowM (List (Value × Value))
  | 0, _, _, _ => throw "yaml: document contains excessive aliasing"
  | fuel + 1, named, node, entries => do
    match node with
    | .list items => mergedAll fuel named items.reverse entries
    | _ => mergedTable fuel named node entries

def mergedAll : (fuel : Nat) → (named : Bool) → List Node → List (Value × Value) →
    FollowM (List (Value × Value))
  | 0, _, _, _ => throw "yaml: document contains excessive aliasing"
  | _, _, [], entries => return entries
  | fuel + 1, named, node :: rest, entries => do
    mergedAll fuel named rest (← mergedTable fuel named node entries)

def mergedTable : (fuel : Nat) → (named : Bool) → Node → List (Value × Value) →
    FollowM (List (Value × Value))
  | 0, _, _, _ => throw "yaml: document contains excessive aliasing"
  | fuel + 1, named, node, entries => do
    if !(← leadsToTable node) then throw mergeRefused
    count
    match node with
    | .table inner => entriesOf fuel named inner entries
    | .alias name number part =>
      through name number part fun node => mergedTable fuel named node entries
    | _ => throw mergeRefused

end

/-- As many steps as following references can take in depth. -/
def followFuel (s : String) : Nat := (s.length + 8) * (s.length + 8)

/-- Reads the value of the first document of a text. -/
def read (s : String) : Except String Value := do
  match ← (Document.read s).mapError Fault.message with
  | none => return .null
  | some doc =>
    let (v, _) ← ((valueOf (followFuel s) doc.root).run doc.parts).run {}
    return v

/-- Reads the entries of the table that a text holds, with their keys as text. Nothing counts as
an empty table. -/
def readEntries (s : String) : Except String (List (String × Value)) := do
  let named (entries : List (Value × Value)) : List (String × Value) :=
    entries.filterMap fun (k, v) =>
      match k with
      | .text name => some (name, v)
      | _ => none
  match ← (Document.read s).mapError Fault.message with
  | none => return []
  | some ⟨.table entries, parts⟩ =>
    let (entries, _) ← ((entriesOf (followFuel s) true entries []).run parts).run {}
    return named entries
  | some doc =>
    match ← (valueOf (followFuel s) doc.root |>.run doc.parts).run {} with
    | (.null, _) => return []
    | _ => throw "yaml: unmarshal errors"

end HaloMesh.Yaml
