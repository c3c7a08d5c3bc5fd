import HaloMesh.Yaml.Lexer

/-! The structure of a document: texts, lists, tables and references to parts with a name.
Reading follows the words one by one, so a fault of their order is found before a fault
further on. -/

namespace HaloMesh.Yaml

inductive Node where
  /-- A text with its tag, and whether its meaning is left to what it looks like. -/
  | text (s : String) (tag : String) (open_ : Bool)
  | list (items : List Node)
  | table (entries : List (Node × Node))
  /-- A reference by name to an anchored part. References are numbered, and so are parts. -/
  | alias (name : String) (number part : Nat)

namespace Node

/-- Nothing, where a value was left out. -/
def absent : Node := text "" "" true

def isTable : Node → Bool
  | table _ => true
  | _ => false

end Node

/-- What was found so far while reading a document. -/
structure Reader where
  lexer : Lexer
  /-- What the beginnings of tags stand for. -/
  handles : List (String × String) := []
  /-- The parts that names stand for, the latest first. -/
  names : List (String × Nat) := []
  parts : List (Nat × Node) := []
  /-- How many parts and references were met. -/
  count : Nat := 0

/-- Reading moves on in the words of a document. -/
abbrev ReadM := StateT Reader (Except Fault)

namespace ReadM

def peek : ReadM Placed := fun r => do
  let (t, lexer) ← r.lexer.peek
  return (t, { r with lexer })

def drop : ReadM Unit := modify fun r => { r with lexer := r.lexer.drop }

/-- The word after the next one. -/
def advance : ReadM Placed := do
  drop
  peek

/-- A fault in the order of words, within something that started at a mark. -/
def disorder {β : Type} (problem : String) (t : Placed) (start : Mark) : ReadM β :=
  throw { problem, mark := t.mark, context := start }

def nextNumber : ReadM Nat := modifyGet fun r => (r.count, { r with count := r.count + 1 })

/-- Gives a part a name, which it has from its start on. -/
def startPart : Option String → ReadM (Option Nat)
  | none => return none
  | some name => do
    let n ← nextNumber
    modify fun r => { r with names := (name, n) :: r.names }
    return some n

def finishPart (n : Option Nat) (node : Node) : ReadM Node := do
  match n with
  | none => return node
  | some n =>
    modify fun r => { r with parts := (n, node) :: r.parts }
    return node

/-- The part a name stands for. -/
def refer (name : String) : ReadM Node := do
  match (← get).names.find? fun p => p.1 = name with
  | some (_, part) => return .alias name (← nextNumber) part
  | none => throw { problem := s!"unknown anchor '{name}' referenced" }

/-- A tag in full. -/
def expandTag (t : Tag) (mark start : Mark) : ReadM String := do
  if t.handle = "" then return t.suffix
  match (← get).handles.find? fun p => p.1 = t.handle with
  | some (_, stem) => return stem ++ t.suffix
  | none => disorder "found undefined tag handle" ⟨.tag t, mark⟩ start

end ReadM

/-- An anchor and a tag before a value, in either order. -/
structure Properties where
  anchor : Option String := none
  tag : Option (Tag × Mark) := none

open ReadM

def readProperties : ReadM (Properties × Placed) := do
  let first ← peek
  match first.token with
  | .anchor name =>
    let second ← advance
    match second.token with
    | .tag t => return ({ anchor := some name, tag := some (t, second.mark) }, ← advance)
    | _ => return ({ anchor := some name }, second)
  | .tag t =>
    let second ← advance
    match second.token with
    | .anchor name => return ({ anchor := some name, tag := some (t, first.mark) }, ← advance)
    | _ => return ({ tag := some (t, first.mark) }, second)
  | _ => return ({}, first)

def contentExpected : String := "did not find expected node content"

/-- A value that is left out, which takes an anchor or a tag. -/
def emptyNode (properties : Properties) (tag : String) (part : Option Nat) (t : Placed)
    (start : Mark) : ReadM Node :=
  if properties.anchor.isSome || tag ≠ "" then finishPart part (.text "" tag (tag = ""))
  else disorder contentExpected t start

mutual

/-- A value. Collections of lines may stand outside of brackets only, and under a key items
may stand without further indentation. -/
def readNode : (fuel : Nat) → (block indentless : Bool) → ReadM Node
  | 0, _, _ => throw { problem := contentExpected }
  | fuel + 1, block, indentless => do
    let first ← peek
    match first.token with
    | .alias name =>
      let node ← refer name
      drop
      return node
    | _ =>
      let start := first.mark
      let (properties, t) ← readProperties
      let tag ←
        match properties.tag with
        | some (tag, mark) => expandTag tag mark start
        | none => pure ""
      let part ← startPart properties.anchor
      match t.token with
      | .text s plain =>
        drop
        finishPart part (.text s tag ((plain && tag = "") || tag = "!"))
      | .flowItems =>
        drop
        finishPart part (← readFlowItems fuel t.mark true [])
      | .flowEntries =>
        drop
        finishPart part (← readFlowEntries fuel t.mark true [])
      | .item =>
        if indentless then finishPart part (← readIndentless fuel [])
        else emptyNode properties tag part t start
      | .blockItems =>
        if block then
          drop
          finishPart part (← readBlockItems fuel t.mark [])
        else emptyNode properties tag part t start
      | .blockEntries =>
        if block then
          drop
          finishPart part (← readBlockEntries fuel t.mark [])
        else emptyNode properties tag part t start
      | _ => emptyNode properties tag part t start

/-- The items after dashes in one column. -/
def readBlockItems : (fuel : Nat) → (start : Mark) → List Node → ReadM Node
  | 0, _, _ => throw { problem := contentExpected }
  | fuel + 1, start, items => do
    let t ← peek
    match t.token with
    | .item =>
      match (← advance).token with
      | .item => readBlockItems fuel start (.absent :: items)
      | .blockEnd => readBlockItems fuel start (.absent :: items)
      | _ =>
        let node ← readNode fuel true false
        readBlockItems fuel start (node :: items)
    | .blockEnd =>
      drop
      return .list items.reverse
    | _ => disorder "did not find expected '-' indicator" t start

/-- The items after dashes in the column of the key they belong to. -/
def readIndentless : (fuel : Nat) → List Node → ReadM Node
  | 0, _ => throw { problem := contentExpected }
  | fuel + 1, items => do
    match (← peek).token with
    | .item =>
      match (← advance).token with
      | .item => readIndentless fuel (.absent :: items)
      | .key => readIndentless fuel (.absent :: items)
      | .value => readIndentless fuel (.absent :: items)
      | .blockEnd => readIndentless fuel (.absent :: items)
      | _ =>
        let node ← readNode fuel true false
        readIndentless fuel (node :: items)
    | _ => return .list items.reverse

/-- A key or a value of a table of lines, which may be left out. -/
def readBlockPart : (fuel : Nat) → ReadM Node
  | 0 => throw { problem := contentExpected }
  | fuel + 1 => do
    match (← advance).token with
    | .key => return .absent
    | .value => return .absent
    | .blockEnd => return .absent
    | _ => readNode fuel true true

/-- The entries of a table of lines. -/
def readBlockEntries : (fuel : Nat) → (start : Mark) → List (Node × Node) → ReadM Node
  | 0, _, _ => throw { problem := contentExpected }
  | fuel + 1, start, entries => do
    let t ← peek
    match t.token with
    | .key =>
      let key ← readBlockPart fuel
      match (← peek).token with
      | .value =>
        let value ← readBlockPart fuel
        readBlockEntries fuel start ((key, value) :: entries)
      | _ => readBlockEntries fuel start ((key, .absent) :: entries)
    | .blockEnd =>
      drop
      return .table entries.reverse
    | _ => disorder "did not find expected key" t start

/-- The items up to a closing bracket. An item may be an entry by itself. -/
def readFlowItems : (fuel : Nat) → (start : Mark) → (first : Bool) → List Node → ReadM Node
  | 0, _, _, _ => throw { problem := contentExpected }
  | fuel + 1, start, first, items => do
    let t ← peek
    if t.token = .flowItemsEnd then
      drop
      return .list items.reverse
    if !first && t.token ≠ .comma then
      disorder "did not find expected ',' or ']'" t start
    let t ← if first then pure t else advance
    match t.token with
    | .key =>
      let entry ← readFlowPair fuel
      readFlowItems fuel start false (.table [entry] :: items)
    | .flowItemsEnd =>
      drop
      return .list items.reverse
    | _ =>
      let node ← readNode fuel false false
      readFlowItems fuel start false (node :: items)

/-- An entry among the items of a list. -/
def readFlowPair : (fuel : Nat) → ReadM (Node × Node)
  | 0 => throw { problem := contentExpected }
  | fuel + 1 => do
    let key ←
      match (← advance).token with
      | .value => do
        drop
        pure .absent
      | .comma => do
        drop
        pure .absent
      | .flowItemsEnd => do
        drop
        pure .absent
      | _ => readNode fuel false false
    let value ← readFlowValue fuel .flowItemsEnd
    let _ ← peek
    return (key, value)

/-- A value after a colon within brackets, which may be left out. -/
def readFlowValue : (fuel : Nat) → (close : Token) → ReadM Node
  | 0, _ => throw { problem := contentExpected }
  | fuel + 1, close => do
    match (← peek).token with
    | .value =>
      let t ← advance
      if t.token = .comma ∨ t.token = close then return .absent
      else readNode fuel false false
    | _ => return .absent

/-- The entries up to a closing brace. A key by itself has no value. -/
def readFlowEntries : (fuel : Nat) → (start : Mark) → (first : Bool) → List (Node × Node) →
    ReadM Node
  | 0, _, _, _ => throw { problem := contentExpected }
  | fuel + 1, start, first, entries => do
    let t ← peek
    if t.token = .flowEntriesEnd then
      drop
      return .table entries.reverse
    if !first && t.token ≠ .comma then
      disorder "did not find expected ',' or '\x7d'" t start
    let t ← if first then pure t else advance
    match t.token with
    | .key =>
      let key ←
        match (← advance).token with
        | .value => pure .absent
        | .comma => pure .absent
        | .flowEntriesEnd => pure .absent
        | _ => readNode fuel false false
      let value ← readFlowValue fuel .flowEntriesEnd
      readFlowEntries fuel start false ((key, value) :: entries)
    | .flowEntriesEnd =>
      drop
      return .table entries.reverse
    | _ =>
      let key ← readNode fuel false false
      let _ ← peek
      readFlowEntries fuel start false ((key, .absent) :: entries)

end

end HaloMesh.Yaml
