import HaloMesh.Config.Tree
import HaloMesh.Toml.Token

/-! Files of tables. A table is opened by its name in brackets, at most once; a name in double
brackets adds an element to a list of tables. Keys come once, and a table written in a value
is closed to later keys. -/

namespace HaloMesh.Toml

inductive Node (α : Type) where
  | leaf (s : Setting α)
  | table (closed : Bool) (entries : List (String × Node α))
  | tables (elements : List (Node α))

namespace Node

variable {α : Type}

def isTable : Node α → Bool
  | table _ _ => true
  | _ => false

/-- Changes a table, or the last table of a list. -/
def alterLast (f : Bool → List (String × Node α) → Option (Node α)) :
    Node α → Option (Node α)
  | leaf _ => none
  | table closed entries => f closed entries
  | tables elements =>
    match elements.getLast? with
    | some (table closed entries) =>
      (f closed entries).map fun t => tables (elements.dropLast ++ [t])
    | _ => none

/-- Changes what is at the end of a path, making the tables on the way. They are closed
where the tables around them are. -/
def alter (f : Node α → Option (Node α)) : List String → Node α → Option (Node α)
  | [], n => f n
  | key :: path, n => alterLast (fun closed entries => do
      let child := (Named.find? entries key).getD (table closed [])
      let child ← alter f path child
      return table closed (Named.assign key child entries)) n

/-- The entries of a table, or of the last table of a list. -/
def lastEntries : Node α → List (String × Node α)
  | leaf _ => []
  | table _ entries => entries
  | tables elements =>
    match elements.getLast? with
    | some (table _ entries) => entries
    | _ => []

/-- What is at the end of a path. -/
def follow? : List String → Node α → Option (Node α)
  | [], n => some n
  | key :: path, n => (Named.find? n.lastEntries key).bind (follow? path)

/-- Sets a key in a table or in tables inside it, which are made where they are missing. A
plain value on the way is passed over. -/
def set (v : Node α) : List String → List (String × Node α) → List (String × Node α)
  | [], entries => entries
  | [key], entries => Named.assign key v entries
  | key :: path, entries =>
    match Named.find? entries key with
    | none => Named.assign key (table false (set v path [])) entries
    | some (table closed inner) => Named.assign key (table closed (set v path inner)) entries
    | some (tables elements) =>
      match elements.getLast? with
      | some (table closed inner) =>
        Named.assign key (tables (elements.dropLast ++ [table closed (set v path inner)])) entries
      | _ => entries
    | some (leaf _) => set v path entries

mutual

/-- A node as a setting. -/
def toSetting : Node α → Setting α
  | leaf s => s
  | table _ entries => .table (toEntries entries)
  | tables _ => .other

def toEntries : List (String × Node α) → Config.Entries α
  | [] => []
  | (key, n) :: rest => (key, n.toSetting) :: toEntries rest

end

end Node

variable {α : Type} [Scalar α]

/-- Whether every underscore stands between two digits; `after` tells whether a digit came
before. -/
def underscoresFit (isDigit : Char → Bool) : (after : Bool) → List Char → Bool
  | _, [] => true
  | after, c :: rest =>
    if c = '_' then after && rest.head?.any isDigit && underscoresFit isDigit false rest
    else underscoresFit isDigit (isDigit c) rest

/-- The digits next to which an underscore can stand in a hexadecimal number. -/
def isLowerHex (c : Char) : Bool := Text.isDigit c || ('a' ≤ c && c ≤ 'f')

/-- The value of a whole number. A leading zero with two more signs has to name a base. -/
def wholeValue? (written : List Char) : Option Int :=
  let valueIn (base : Nat) (ds : List Char) : Option Int :=
    if underscoresFit (if base = 16 then isLowerHex else Text.isDigit) false written then
      (Text.wholeIn base ds).toOption
    else none
  match written.filter (· ≠ '_') with
  | '0' :: 'x' :: d :: ds => valueIn 16 (d :: ds)
  | '0' :: 'o' :: d :: ds => valueIn 8 (d :: ds)
  | '0' :: 'b' :: d :: ds => valueIn 2 (d :: ds)
  | '0' :: _ :: _ :: _ => none
  | ds => valueIn 10 ds

/-- A number that may be infinite or undefined. -/
def realNode (n : Text.Number) : Node α := .leaf (.real (Setting.ofNumber n))

/-- A value that is one word. -/
def plainNode? : Token → Option (Node α)
  | .text s => some (.leaf (.text s))
  | .flag b => some (.leaf (.flag b))
  | .infinite negative => some (realNode (.infinite negative))
  | .undefined => some (realNode .undefined)
  | .whole written => (wholeValue? written).map fun n => .leaf (.wide n)
  | .real written =>
    if underscoresFit Text.isDigit false written then
      (Text.number? (String.ofList (written.filter (· ≠ '_')))).map realNode
    else none
  | .moment m => m.map fun m => .leaf (.shown m.toText)
  | _ => none

/-- A list. One that holds tables and nothing else is the same as tables with double
brackets. -/
def listNode (items : List (Node α)) : Node α :=
  if !items.isEmpty && items.all Node.isTable then .tables items else .leaf .other

mutual

/-- A value that starts here, and the words left. -/
def value? : (fuel : Nat) → List Token → Option (Node α × List Token)
  | 0, _ => none
  | fuel + 1, t :: rest =>
    match t with
    | .openBracket => items? fuel [] rest
    | .openBrace => fields? fuel [] none rest
    | _ => (plainNode? t).map fun n => (n, rest)
  | _, [] => none

/-- The items of a list up to its bracket; `taken` is read in reverse. -/
def items? : (fuel : Nat) → (taken : List (Node α)) → List Token →
    Option (Node α × List Token)
  | 0, _, _ => none
  | fuel + 1, taken, ts =>
    match ts with
    | .closeBracket :: rest => some (listNode taken.reverse, rest)
    | _ =>
      match value? fuel ts with
      | some (v, .comma :: rest) => items? fuel (v :: taken) rest
      | some (v, .closeBracket :: rest) => items? fuel (v :: taken) (.closeBracket :: rest)
      | _ => none

/-- The fields of a table up to its brace. Between two fields stands one comma; `last` tells
whether the word before was one. -/
def fields? : (fuel : Nat) → List (String × Node α) → (last : Option Bool) → List Token →
    Option (Node α × List Token)
  | 0, _, _, _ => none
  | fuel + 1, entries, last, ts =>
    match ts with
    | .closeBrace :: rest => if last = some true then none else some (.table true entries, rest)
    | .key written :: .equals :: rest =>
      if last = some false then none
      else
        match splitKey? written, value? fuel rest with
        | some path, some (v, rest) => fields? fuel (Node.set v path entries) (some false) rest
        | _, _ => none
    | .comma :: rest => if last = some true then none else fields? fuel entries (some true) rest
    | _ => none

end

/-- A file on the way: its tables, the names of the tables opened so far, and the table that
keys go to. -/
structure File (α : Type) where
  root : Node α := .table false []
  opened : List String := []
  current : List String := []

namespace File

/-- Gives a key its value. -/
def assign (f : File α) (path : List String) (v : Node α) : Option (File α) := do
  let key ← path.getLast?
  let root ← f.root.alter (Node.alterLast fun closed entries =>
    if closed || (Named.find? entries key).isSome then none
    else some (.table closed (entries ++ [(key, v)]))) (f.current ++ path.dropLast)
  return { f with root }

/-- Opens a table. -/
def openTable (f : File α) (written : String) : Option (File α) := do
  if written ∈ f.opened then none
  let path ← splitKey? written
  let root ← f.root.alter (fun n =>
    match n with
    | .table true _ => none
    | .leaf _ => none
    | _ => some n) path
  return { root, opened := written :: f.opened, current := path }

/-- The list of tables at the end of a path, with a new element. -/
def elements? (root : Node α) (path : List String) : Option (Node α) :=
  match root.follow? path with
  | none => some (.tables [.table false []])
  | some (.tables elements) => some (.tables (elements ++ [.table false []]))
  | some _ => none

/-- Opens a new element of a list of tables. The tables inside the one before may come
again. -/
def openElement (f : File α) (written : String) : Option (File α) := do
  let path ← splitKey? written
  let made := (f.root.alter some path.dropLast).getD f.root
  let root := Node.table false (Node.set (← elements? made path) path made.lastEntries)
  let kept := f.opened.filter fun name => !name.startsWith (written ++ ".")
  return { root, opened := written :: kept, current := path }

/-- Reads statement after statement. -/
def readAll : (fuel : Nat) → File α → List Token → Option (File α)
  | 0, _, _ => none
  | _, f, [] => some f
  | fuel + 1, f, ts =>
    match ts with
    | .openDouble :: .elementKey written :: .closeDouble :: rest => do
      readAll fuel (← f.openElement written) rest
    | .openBracket :: .tableKey written :: .closeBracket :: rest => do
      readAll fuel (← f.openTable written) rest
    | .key written :: .equals :: rest => do
      let path ← splitKey? written
      let (v, rest) ← value? fuel rest
      readAll fuel (← f.assign path v) rest
    | _ => none

end File

/-- The settings of a text, none if it is malformed. -/
def read? (text : String) : Option (Config.Entries α) := do
  let ts ← tokensOf? text
  let f ← File.readAll (2 * ts.length + 2) ({} : File α) ts
  return f.root.toSetting.entries

end HaloMesh.Toml
