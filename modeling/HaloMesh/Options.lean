import HaloMesh.Index.Word
import HaloMesh.Named
import HaloMesh.Scalar
import HaloMesh.Text.Case
import HaloMesh.Text.Search

/-! Named settings. Keys are compared without regard to case, and a setting is read as the
type that is asked for, whatever type it was given in. A dot in a key leads into a table of
settings. -/

namespace HaloMesh

inductive Setting (α : Type) where
  | flag (b : Bool)
  | whole (n : Int)
  /-- A whole number given in 64 bits. It is no truth value. -/
  | wide (n : Int)
  | real (x : α)
  | text (s : String)
  /-- A day or a time, which can be shown but stands for no number. -/
  | shown (s : String)
  /-- A list, which stands for no plain value. -/
  | other
  | table (entries : List (String × Setting α))

namespace Setting

variable {α : Type}

/-- Entries with their keys in lower case. Where two keys become one, the one that was not in
lower case wins. -/
def lowerKeys (entries : List (String × Setting α)) : List (String × Setting α) :=
  let (kept, changed) := entries.partition fun e => Text.lower e.1 = e.1
  let changed := changed.map fun (key, s) => (Text.lower key, s)
  changed ++ kept.filter fun e => (Named.find? changed e.1).isNone

mutual

/-- A setting with the keys of its tables in lower case. -/
def lowered : Setting α → Setting α
  | table entries => table (lowerKeys (loweredEntries entries))
  | s => s

def loweredEntries : List (String × Setting α) → List (String × Setting α)
  | [] => []
  | (key, s) :: rest => (key, s.lowered) :: loweredEntries rest

end

/-- The entries of a table, none for any other setting. -/
def entries : Setting α → List (String × Setting α)
  | table entries => entries
  | _ => []

variable [Scalar α]

/-- A setting as a whole number. Text that is none counts as zero. -/
def toWhole : Setting α → Int
  | flag b => if b then 1 else 0
  | whole n => n
  | wide n => Index.wrap n
  | real x => Scalar.truncate x
  | text s => (Text.wholeNumber? s).getD 0
  | _ => 0

/-- A setting as a truth value. A fraction is never true. -/
def toFlag : Setting α → Bool
  | flag b => b
  | whole n => n ≠ 0
  | text s => s ∈ ["1", "t", "T", "TRUE", "true", "True"]
  | _ => false

/-- The number a decimal text stands for. -/
def ofFraction (f : Text.Fraction) : α :=
  let x : α := Scalar.ofScientific f.mantissa (decide (f.exponent < 0)) f.exponent.natAbs
  if f.negative then -x else x

/-- The number a text stands for. -/
def ofNumber : Text.Number → α
  | .finite f => ofFraction f
  | .infinite negative => if negative then -1 / 0 else 1 / 0
  | .undefined => Scalar.undefined

def toReal : Setting α → α
  | flag b => if b then 1 else 0
  | whole n => Scalar.ofInt n
  | wide n => Scalar.ofInt n
  | real x => x
  | text s => ((Text.number? s).map ofNumber).getD 0
  | _ => 0

def toText : Setting α → String
  | flag b => if b then "true" else "false"
  | whole n => toString n
  | wide n => toString n
  | real x => Scalar.plainText x
  | text s => s
  | shown s => s
  | _ => ""

end Setting

/-- A tree of settings under lower case keys. -/
structure Options (α : Type) where
  entries : List (String × Setting α)

namespace Options

variable {α : Type}

def empty : Options α := ⟨[]⟩

/-- The keys that lead to a setting, one after the other. -/
def path (key : String) : List String := (Text.parts '.' (Text.lower key).toList).map String.ofList

/-- Puts a setting at the end of a path. A plain setting on the way gives place to a
table. -/
def place : List String → Setting α → List (String × Setting α) → List (String × Setting α)
  | [], _, entries => entries
  | [key], s, entries => Named.assign key s entries
  | key :: rest, s, entries =>
    let inner := ((Named.find? entries key).map Setting.entries).getD []
    Named.assign key (.table (place rest s inner)) entries

/-- Follows a path through tables. -/
def follow? : List String → List (String × Setting α) → Option (Setting α)
  | [], _ => none
  | [key], entries => Named.find? entries key
  | key :: rest, entries =>
    match Named.find? entries key with
    | some (.table inner) => follow? rest inner
    | _ => none

/-- A later setting of a key replaces an earlier one. -/
def set (o : Options α) (key : String) (s : Setting α) : Options α :=
  ⟨place (path key) s.lowered o.entries⟩

def get? (o : Options α) (key : String) : Option (Setting α) := follow? (path key) o.entries

def isSet (o : Options α) (key : String) : Bool := (o.get? key).isSome

variable [Scalar α]

def whole (o : Options α) (key : String) (dflt : Int) : Int :=
  ((o.get? key).map Setting.toWhole).getD dflt

def flag (o : Options α) (key : String) (dflt : Bool) : Bool :=
  ((o.get? key).map Setting.toFlag).getD dflt

def real (o : Options α) (key : String) (dflt : α) : α :=
  ((o.get? key).map Setting.toReal).getD dflt

def text (o : Options α) (key : String) (dflt : String) : String :=
  ((o.get? key).map Setting.toText).getD dflt

end Options

end HaloMesh
