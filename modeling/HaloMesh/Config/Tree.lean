import HaloMesh.Json.Reader
import HaloMesh.Options
import HaloMesh.Yaml.Reference

/-! Settings as a configuration file gives them: a tree of tables. Its settings become options
under the keys that lead to them, joined by dots. -/

namespace HaloMesh.Config

variable {α : Type}

abbrev Entries (α : Type) := List (String × Setting α)

/-- Why a text gives no settings. -/
inductive Refusal where
  /-- It does not follow its format, and is passed over. -/
  | malformed
  /-- It asks for something that does not exist, and the run ends. -/
  | fatal
deriving DecidableEq, Repr

/-- The keys that lead to settings, those of inner tables joined by dots. -/
def joined (start key : String) : String := if start = "" then key else start ++ "." ++ key

mutual

def keysOf (start : String) : Setting α → List String
  | .table entries => entryKeys start entries
  | _ => [start]

def entryKeys (start : String) : Entries α → List String
  | [] => []
  | (key, s) :: rest => keysOf (joined start key) s ++ entryKeys start rest

end

/-- Looks up the names of a path. A key may hold several of them, and one that holds more goes
first; `taken` counts the names of the key that is tried, and `depth` the tables to go
through. -/
def seek : (depth taken : Nat) → List String → Entries α → Option (Setting α)
  | _, 0, _, _ => none
  | depth, taken + 1, names, entries =>
    let key := ".".intercalate (names.take (taken + 1))
    let rest := names.drop (taken + 1)
    let found : Option (Setting α) :=
      match Named.find? entries key, depth with
      | some (.table inner), depth + 1 =>
        if rest.isEmpty then some (.table inner) else seek depth rest.length rest inner
      | some s, _ => if rest.isEmpty then some s else none
      | none, _ => none
    found.or (seek depth taken names entries)

/-- A tree of settings as options. -/
def toOptions (entries : Entries α) : Options α :=
  let lowered := (Setting.table entries).lowered.entries
  (entryKeys "" lowered).foldl (fun o key =>
    let names := key.splitOn "."
    match seek names.length names.length names lowered with
    | some s => o.set key s
    | none => o) Options.empty

variable [Scalar α]

/-- The text of a key inside a data file. -/
def keyText : Yaml.Value → String
  | .flag b => if b then "true" else "false"
  | .whole n => toString n
  | .word n => toString n
  | .real n => Decimal.plainText n.toDouble
  | .text s => s
  | _ => ""

mutual

/-- A value of a data file as a setting, none if it means nothing. -/
def ofValue? : Yaml.Value → Option (Setting α)
  | .null => none
  | .flag b => some (.flag b)
  | .whole n => some (.whole n)
  | .word n => some (.wide n)
  | .real n => some (.real (Setting.ofNumber n))
  | .text s => some (.text s)
  | .list _ => some .other
  | .table entries => some (.table (ofEntries entries))

def ofEntries : List (Yaml.Value × Yaml.Value) → Entries α
  | [] => []
  | (k, v) :: rest =>
    match ofValue? v with
    | some s => (keyText k, s) :: ofEntries rest
    | none => ofEntries rest

end

/-- The settings of a data file. -/
def ofYaml? (text : String) : Option (Entries α) :=
  (Yaml.readEntries text).toOption.map fun entries =>
    entries.filterMap fun (key, v) => (ofValue? v).map fun s => (key, s)

/-- The entries that mean something, the last of each name. -/
def meant (entries : List (String × Option (Setting α))) : Entries α :=
  (Named.sorted entries).filterMap fun (key, s) => s.map fun s => (key, s)

mutual

/-- A value of data exchange as a setting, which may mean nothing. A number out of range is
refused. -/
def ofJson? : Json → Option (Option (Setting α))
  | .null => some none
  | .flag b => some (some (.flag b))
  | .number digits => (Text.number? digits).map fun n => some (.real (Setting.ofNumber n))
  | .text s => some (some (.text s))
  | .list items => if itemsFit items then some (some .other) else none
  | .object entries => (ofFields? entries).map fun entries => some (.table (meant entries))

def ofFields? : List (String × Json) → Option (List (String × Option (Setting α)))
  | [] => some []
  | (key, j) :: rest => do
    let s ← ofJson? j
    return (key, s) :: (← ofFields? rest)

/-- Whether the numbers in a list are in range. -/
def itemsFit : List Json → Bool
  | [] => true
  | .number digits :: rest => (Text.number? digits).isSome && itemsFit rest
  | .list items :: rest => itemsFit items && itemsFit rest
  | .object entries :: rest => fieldsFit entries && itemsFit rest
  | _ :: rest => itemsFit rest

def fieldsFit : List (String × Json) → Bool
  | [] => true
  | (_, .number digits) :: rest => (Text.number? digits).isSome && fieldsFit rest
  | (_, .list items) :: rest => itemsFit items && fieldsFit rest
  | (_, .object entries) :: rest => fieldsFit entries && fieldsFit rest
  | _ :: rest => fieldsFit rest

end

/-- The settings of a text of data exchange, which has to hold an object or nothing. -/
def ofJsonText? (text : String) : Option (Entries α) :=
  match Json.parse? text with
  | some (.object entries) => (ofFields? entries).map meant
  | some .null => some []
  | _ => none

end HaloMesh.Config
