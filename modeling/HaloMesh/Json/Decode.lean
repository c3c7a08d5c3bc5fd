import HaloMesh.Json.Value
import HaloMesh.Options

/-! Taking values over into records. Nothing leaves a plain field as it was and clears a table
or an optional field. A value that does not fit is skipped; the first misfit is reported when
everything else has been taken over. -/

namespace HaloMesh.Json

/-- A step on the way to a place: into an entry or to an item. -/
inductive Step where
  | entry (key : String)
  | item (position : Nat)
deriving DecidableEq, Repr

/-- A sign of a key on a way. A slash and a tilde are written by number. -/
def wayChar (c : Char) : List Char :=
  if c = '~' then ['~', '0'] else if c = '/' then ['~', '1'] else [c]

def Step.text : Step → String
  | entry key => String.ofList (key.toList.flatMap wayChar)
  | item position => toString position

def Step.isItem : Step → Bool
  | entry _ => false
  | item _ => true

/-- Where a value is to go: a record and the way from there. -/
structure Place where
  record : String
  steps : List Step := []
deriving DecidableEq, Repr

namespace Place

def entry (p : Place) (key : String) : Place := { p with steps := p.steps ++ [.entry key] }

def item (p : Place) (position : Nat) : Place := { p with steps := p.steps ++ [.item position] }

/-- The place in a message. -/
def text (p : Place) : String :=
  let way := ".".intercalate (p.record :: p.steps.map Step.text)
  if p.steps.isEmpty then "Go value"
  else if p.steps.any Step.isItem then way
  else "Go struct field " ++ way

end Place

/-- A value that does not fit: what it is, where it was to go, and what was wanted. -/
structure Misfit where
  found : String
  place : Place
  wanted : String
deriving DecidableEq, Repr

def Misfit.message (m : Misfit) : String :=
  s!"json: cannot unmarshal {m.found} into {m.place.text} of type {m.wanted}"

/-- The new value of a field and what did not fit. -/
abbrev Taken (β : Type) := β × Option Misfit

/-- The first misfit counts. -/
def Taken.after {β : Type} (earlier : Option Misfit) (t : Taken β) : Taken β :=
  (t.1, earlier.or t.2)

/-- The word for the kind of a value in messages. -/
def kindName : Json → String
  | null => "null"
  | flag _ => "bool"
  | number _ => "number"
  | text _ => "string"
  | list _ => "array"
  | object _ => "object"

def misfit {β : Type} (j : Json) (place : Place) (wanted : String) (old : β) : Taken β :=
  (old, some ⟨j.kindName, place, wanted⟩)

/-- A number that does not fit is told in full where a number is wanted. -/
def misfitNumber {β : Type} (digits : String) (place : Place) (wanted : String) (old : β) :
    Taken β :=
  (old, some ⟨s!"number {digits}", place, wanted⟩)

def takeText (place : Place) (old : String) (j : Json) : Taken String :=
  match j with
  | null => (old, none)
  | text s => (s, none)
  | j => j.misfit place "string" old

def takeFlag (place : Place) (old : Bool) (j : Json) : Taken Bool :=
  match j with
  | null => (old, none)
  | flag b => (b, none)
  | j => j.misfit place "bool" old

def takeOptionalFlag (place : Place) (old : Option Bool) (j : Json) : Taken (Option Bool) :=
  match j with
  | null => (none, none)
  | flag b => (some b, none)
  | j => j.misfit place "bool" old

/-- A whole number, written without a point or an exponent. -/
def takeWhole (place : Place) (old : Int) (j : Json) : Taken Int :=
  match j with
  | null => (old, none)
  | number digits =>
    match Text.wholeIn 10 digits.toList with
    | .ok n => (n, none)
    | .error _ => misfitNumber digits place "int" old
  | j => j.misfit place "int" old

variable {α : Type} [Scalar α]

def takeReal (place : Place) (old : α) (j : Json) : Taken α :=
  match j with
  | null => (old, none)
  | number digits =>
    match Text.number? digits with
    | some n => (Setting.ofNumber n, none)
    | none => misfitNumber digits place "float64" old
  | j => j.misfit place "float64" old

/-- Items of a list from a position on, one after the other. -/
def takeItems {β : Type} (take : Place → Json → Taken β) (place : Place) :
    (position : Nat) → List Json → Taken (List β)
  | _, [] => ([], none)
  | position, j :: rest =>
    let (b, e) := take (place.item position) j
    let (bs, more) := takeItems take place (position + 1) rest
    (b :: bs, e.or more)

def takeList {β : Type} (take : Place → Json → Taken β) (wanted : String) (place : Place)
    (j : Json) : Taken (List β) :=
  match j with
  | null => ([], none)
  | list items => takeItems take place 0 items
  | j => j.misfit place wanted []

/-- Adds the entries of a table to those a field has; nothing clears them. -/
def takeTable {β : Type} (take : Place → Json → Taken β) (wanted : String) (place : Place)
    (old : List (String × β)) (j : Json) : Taken (List (String × β)) :=
  match j with
  | null => ([], none)
  | object entries =>
    entries.foldl (fun (taken, e) (key, j) =>
      let (b, e) := Taken.after e (take (place.entry key) j)
      (Named.assign key b taken, e)) (old, none)
  | j => j.misfit place wanted old

/-- How a record takes over the value of a field. -/
abbrev Fields (β : Type) := List (String × (β → Json → Taken β))

/-- Takes entries over into a record, field after field. Keys are matched without regard to
case, and those that name no field are passed over. -/
def takeRecord {β : Type} (fields : Fields β) (wanted : String) (place : Place) (old : β)
    (j : Json) : Taken β :=
  match j with
  | null => (old, none)
  | object entries =>
    entries.foldl (fun (taken, e) (key, j) =>
      let exact := fields.find? fun f => f.1 = key
      match exact.or (fields.find? fun f => Text.sameName f.1 key) with
      | some (_, take) => Taken.after e (take taken j)
      | none => (taken, e)) (old, none)
  | j => j.misfit place wanted old

end HaloMesh.Json
