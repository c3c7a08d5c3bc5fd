import HaloMesh.Config.Tree
import HaloMesh.Text.Search

/-! Files of keys and values, a pair on each line. A colon, an equals sign or a blank divides
them, a backslash keeps a sign from its meaning or joins two lines, and a key in braces
behind a dollar sign stands for its value. A dot in a key leads into a table. -/

namespace HaloMesh.Config.Properties

def isWhite (c : Char) : Bool := c = ' ' || c = '\t' || c = '\x0c'

def isLineEnd (c : Char) : Bool := c = '\n' || c = '\r'

/-- Whether a sign ends a key. -/
def endsKey (c : Char) : Bool := isWhite c || isLineEnd c || c = ':' || c = '='

/-- The character that a backslash and what follows stand for. -/
def escaped? : List Char → Option (Char × List Char)
  | [] => none
  | 'u' :: rest =>
    if rest.length < 4 then none
    else (Text.digitsValue? 16 (rest.take 4)).map fun n => (Text.ofCode n, rest.drop 4)
  | 'f' :: rest => some ('\x0c', rest)
  | 'n' :: rest => some ('\n', rest)
  | 'r' :: rest => some ('\r', rest)
  | 't' :: rest => some ('\t', rest)
  | c :: rest => some (c, rest)

/-- A key and what is left; `taken` is read in reverse. -/
def readKey : (steps : Nat) → (taken : List Char) → List Char → Option (List Char × List Char)
  | 0, _, _ => none
  | _, taken, [] => some (taken.reverse, [])
  | steps + 1, taken, c :: rest =>
    if c = '\\' then
      match escaped? rest with
      | some (e, rest) => readKey steps (e :: taken) rest
      | none => none
    else if endsKey c then some (taken.reverse, c :: rest)
    else readKey steps (c :: taken) rest

/-- A value up to the end of its line and what is left; `taken` is read in reverse. -/
def readValue : (steps : Nat) → (taken : List Char) → List Char → Option (List Char × List Char)
  | 0, _, _ => none
  | _, taken, [] => some (taken.reverse, [])
  | steps + 1, taken, c :: rest =>
    if c = '\\' then
      if rest.head?.any isLineEnd then
        readValue steps taken ((rest.drop 1).dropWhile isWhite)
      else
        match escaped? rest with
        | some (e, rest) => readValue steps (e :: taken) rest
        | none => none
    else if isLineEnd c then some (taken.reverse, rest)
    else readValue steps (c :: taken) rest

/-- What stands between a key and its value is left out. -/
def skipDivider (cs : List Char) : List Char :=
  let cs := cs.dropWhile isWhite
  let cs := if cs.head?.any fun c => c = ':' || c = '=' then cs.drop 1 else cs
  cs.dropWhile isWhite

abbrev Pairs := List (String × List Char)

/-- The pairs of a text. A value has to have a key. -/
def readPairs : (steps : Nat) → Pairs → List Char → Option Pairs
  | 0, _, _ => none
  | _, pairs, [] => some pairs
  | steps + 1, pairs, c :: rest =>
    if isLineEnd c || isWhite c then readPairs steps pairs rest
    else if c = '#' || c = '!' then readPairs steps pairs (rest.dropWhile fun c => !isLineEnd c)
    else do
      let (key, rest) ← readKey steps [] (c :: rest)
      if key.isEmpty then none
      let (value, rest) ← readValue steps [] (skipDivider rest)
      readPairs steps (Named.assign (String.ofList key) value pairs) rest

/-- How deep keys may stand for each other. -/
def depthLimit : Nat := 64

/-- Puts values for the keys in braces, one after the other. A key must not stand for
itself, and a brace has to be closed. -/
def expand (pairs : Pairs) : (steps : Nat) → (keys : List String) → List Char →
    Option (List Char)
  | 0, _, _ => none
  | steps + 1, keys, cs =>
    if depthLimit < keys.length then none
    else
      match Text.cut? ['$', '\x7b'] cs with
      | none => some cs
      | some (front, rest) => do
        let (name, rest) ← Text.cut? ['\x7d'] rest
        let key := String.ofList name
        if key ∈ keys then none
        let value := (Named.find? pairs key).getD []
        let value ← expand pairs steps (key :: keys) value
        expand pairs steps keys (front ++ value ++ rest)

/-- The path of tables to a setting. The name at its end is in lower case. -/
def path (key : String) : List String :=
  let names := key.splitOn "."
  names.dropLast ++ [Text.lower (names.getLastD "")]

/-- The settings of a text, none if it is malformed. -/
def read? {α : Type} (text : String) : Option (Entries α) := do
  let cs := text.toList
  let pairs ← readPairs (cs.length + 1) [] cs
  pairs.foldlM (fun entries (key, value) => do
    let value ← expand pairs 1000 [key] value
    return Options.place (path key) (.text (String.ofList value)) entries) []

end HaloMesh.Config.Properties
