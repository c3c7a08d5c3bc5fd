import HaloMesh.Yaml.Node

/-! The first document of a text. Directives may stand before it, and what stands behind it
is not looked at. -/

namespace HaloMesh.Yaml

/-- A document: its value, and the parts that it refers to by number. -/
structure Document where
  root : Node
  parts : List (Nat × Node)

/-- The characters that may stand in a text. -/
def isAllowed (c : Char) : Bool :=
  let n := c.toNat
  n = 9 || n = 10 || n = 13 || (32 ≤ n && n ≤ 126) || n = 0x85 || (0xa0 ≤ n && n ≤ 0xfffd) ||
    0x10000 ≤ n

/-- How many bytes of a text are looked at together. -/
def chunkSize : Nat := 512

/-- The characters that fill a chunk and what is left of the text. A character that no longer
fits in belongs to the next chunk. -/
def splitChunk : (room : Nat) → List Char → List Char × List Char
  | _, [] => ([], [])
  | room, c :: rest =>
    if room < c.utf8Size then ([], c :: rest)
    else
      let (chunk, left) := splitChunk (room - c.utf8Size) rest
      (c :: chunk, left)

/-- The chunks of a text up to the first with a character that must not stand in it, and
whether there is one; `room` is left in the first. -/
def chunks : (steps room : Nat) → List Char → List (List Char) × Bool
  | 0, _, _ => ([], false)
  | _, _, [] => ([], false)
  | steps + 1, room, cs =>
    let (chunk, left) := splitChunk room cs
    if chunk.all isAllowed then
      let (more, cut) := chunks steps chunkSize left
      (chunk :: more, cut)
    else ([], true)

/-- The words of a text. An empty text has one empty line. -/
def Lexer.ofText (s : String) : Lexer :=
  let cs := if s = "" then ['\n'] else s.toList
  let signed := cs.head? == some byteOrderMark
  let body := if signed then cs.drop 1 else cs
  let room := if signed then chunkSize - byteOrderMark.utf8Size else chunkSize
  let (pieces, cut) := chunks (body.length + 1) room body
  { cursor := Cursor.ofPieces pieces cut }

open ReadM

/-- What the beginnings of tags stand for without a directive. -/
def standardHandles : List (String × String) := [("!", "!"), ("!!", "tag:yaml.org,2002:")]

/-- The directives in front of a document. Each version and each beginning of a tag may be
given once. -/
def readDirectives : (fuel : Nat) → (versioned : Bool) → ReadM Unit
  | 0, _ => return
  | fuel + 1, versioned => do
    let t ← peek
    match t.token with
    | .directive (.version major minor) =>
      if versioned then disorder "found duplicate %YAML directive" t {}
      if major ≠ 1 ∨ minor ≠ 1 then disorder "found incompatible YAML document" t {}
      drop
      readDirectives fuel true
    | .directive (.tag handle stem) =>
      if (← get).handles.any fun h => h.1 = handle then
        disorder "found duplicate %TAG directive" t {}
      modify fun r => { r with handles := r.handles ++ [(handle, stem)] }
      drop
      readDirectives fuel versioned
    | _ => return

/-- Whether a word stands outside of documents. -/
def isOutside : Token → Bool
  | .directive _ => true
  | .documentStart => true
  | .documentEnd => true
  | .streamEnd => true
  | _ => false

/-- The value of a document that starts with its mark. -/
def readExplicit (fuel : Nat) : ReadM Node := do
  readDirectives fuel false
  modify fun r => { r with handles := r.handles ++ standardHandles }
  let t ← peek
  if t.token ≠ .documentStart then disorder "did not find expected <document start>" t {}
  if isOutside (← advance).token then return .absent else readNode fuel true false

/-- The value of the first document, none if there is no document. -/
def readRoot (fuel : Nat) : ReadM (Option Node) := do
  match (← advance).token with
  | .streamEnd => return none
  | .directive _ => return some (← readExplicit fuel)
  | .documentStart => return some (← readExplicit fuel)
  | _ =>
    modify fun r => { r with handles := standardHandles }
    return some (← readNode fuel true false)

/-- Reads the first document of a text, none if there is no document. -/
def Document.read (s : String) : Except Fault (Option Document) := do
  let fuel := 16 * (s.length + 4)
  let reader : Reader := { lexer := Lexer.ofText s }
  let ((root, _), reader) ← (do
    let _ ← peek
    let root ← readRoot fuel
    let t ← peek
    return (root, t) : ReadM (Option Node × Placed)).run reader
  return root.map fun root => ⟨root, reader.parts⟩

end HaloMesh.Yaml
