/-! A place in a text: what is left of it and where that starts. Reading moves the cursor
forward and fails with a fault that knows its line. The text comes into view piece by
piece, each when something in it has to be seen. -/

namespace HaloMesh.Yaml

/-- Where something stands, all counted from zero. -/
structure Mark where
  index : Nat := 0
  line : Nat := 0
  column : Nat := 0
deriving DecidableEq, Repr

/-- What is wrong with a text. A fault met while cutting the text into words is told one
line further than one of their order. -/
structure Fault where
  problem : String
  mark : Mark := {}
  context : Mark := {}
  inWords : Bool := false
deriving DecidableEq, Repr

/-- A fault on the first line is told with the line of what it belongs to, or without one. -/
def Fault.message (f : Fault) : String :=
  let line :=
    if f.mark.line = 0 then f.context.line
    else if f.inWords then f.mark.line + 1
    else f.mark.line
  "yaml: " ++ (if line ≠ 0 then s!"line {line}: " else "") ++ f.problem

def isBlank (c : Char) : Bool := c = ' ' || c = '\t'

/-- The signs that end a line. -/
def isBreak (c : Char) : Bool :=
  let n := c.toNat
  n = 10 || n = 13 || n = 0x85 || n = 0x2028 || n = 0x2029

/-- The sign that stands for the end of a text. -/
def isEndSign (c : Char) : Bool := c.toNat = 0

/-- Whether a text has ended. -/
def isOver : List Char → Bool
  | [] => true
  | c :: _ => isEndSign c

/-- Whether a line ends here. -/
def endsLine : List Char → Bool
  | [] => true
  | c :: _ => isBreak c || isEndSign c

/-- Whether a blank, a line end or the end of the text follows. -/
def endsWord : List Char → Bool
  | [] => true
  | c :: _ => isBlank c || isBreak c || isEndSign c

/-- Whether a blank or a line end follows. -/
def startsGap : List Char → Bool
  | [] => false
  | c :: _ => isBlank c || isBreak c

/-- Letters, digits and the two signs that names are made of. -/
def isNameChar (c : Char) : Bool :=
  ('0' ≤ c && c ≤ '9') || ('A' ≤ c && c ≤ 'Z') || ('a' ≤ c && c ≤ 'z') || c = '_' || c = '-'

/-- The mark of the byte order, which may stand before a text. -/
def byteOrderMark : Char := Char.ofNat 0xfeff

structure Cursor where
  rest : List Char
  /-- How many characters are left. -/
  left : Nat
  mark : Mark := {}
  /-- How many characters from here on are in view. -/
  view : Nat := 0
  /-- The sizes of the pieces that are not in view yet. -/
  pieces : List Nat := []
  /-- Whether the last piece is followed by one with a character that must not stand in it. -/
  cut : Bool := false
  /-- Whether that piece had to be seen. -/
  spoilt : Bool := false
  /-- Whether what was in view after the last piece came started with a mark of the byte
  order. Then each line starts with one more sign that does not count. -/
  marked : Bool := false

/-- A part that was read and where it ended. -/
abbrev Read (β : Type) := Except Fault (β × Cursor)

/-- What is said of a text with a character that must not stand in it. -/
def cutFault : Fault := { problem := "control characters are not allowed" }

namespace Cursor

/-- The start of a text in pieces, the last of which may stop short. -/
def ofPieces (pieces : List (List Char)) (cut : Bool) : Cursor :=
  let cs := pieces.flatten
  { rest := cs, left := cs.length, pieces := pieces.map List.length, cut }

/-- Takes pieces into view until a number of characters is. -/
def pull (n : Nat) : (view : Nat) → List Nat → Nat × List Nat
  | view, [] => (view, [])
  | view, size :: rest => if n ≤ view then (view, size :: rest) else pull n (view + size) rest

/-- Sees at least a number of characters ahead. The end of the text counts as one. -/
def see (n : Nat) (c : Cursor) : Cursor :=
  if n ≤ c.view then c
  else
    let (view, pieces) := pull n c.view c.pieces
    let beyond := decide (view < n)
    { c with
      view := if beyond then view + 1 else view
      pieces
      spoilt := c.spoilt || (beyond && c.cut)
      marked := c.rest.head? == some byteOrderMark }

def column (c : Cursor) : Nat := c.mark.column

def peek? (c : Cursor) : Option Char := c.rest.head?

/-- Whether a sign stands here. -/
def at? (c : Cursor) (sign : Char) : Bool := c.rest.head? == some sign

/-- Past one character of a line. -/
def skip (c : Cursor) : Cursor :=
  match c.rest with
  | [] => c
  | _ :: rest =>
    { c with
      rest
      left := c.left - 1
      mark := ⟨c.mark.index + 1, c.mark.line, c.mark.column + 1⟩
      view := c.view - 1 }

/-- Past several characters of a line. -/
def skips : Nat → Cursor → Cursor
  | 0, c => c
  | n + 1, c => skips n c.skip

/-- Past a line end, with what it counts as in a text. -/
def readLine (c : Cursor) : List Char × Cursor :=
  let c := c.see 2
  let down (n : Nat) (rest : List Char) : Cursor :=
    { c with
      rest
      left := c.left - n
      mark := ⟨c.mark.index + n, c.mark.line + 1, 0⟩
      view := c.view - n }
  match c.rest with
  | '\r' :: '\n' :: rest => (['\n'], down 2 rest)
  | ch :: rest =>
    if !isBreak ch then ([], c)
    else (if ch.toNat = 0x2028 || ch.toNat = 0x2029 then [ch] else ['\n'], down 1 rest)
  | [] => ([], c)

def skipLine (c : Cursor) : Cursor := c.readLine.2

/-- Past characters of a line, for at most so many steps. -/
def skipSome (p : Char → Bool) : (steps : Nat) → Cursor → Cursor
  | 0, c => c
  | steps + 1, c =>
    let c := c.see 1
    match c.rest with
    | ch :: _ => if p ch then skipSome p steps c.skip else c
    | [] => c

/-- Past all characters of one sort. -/
def skipWhile (c : Cursor) (p : Char → Bool) : Cursor := skipSome p (c.left + 1) c

/-- The characters of one sort, and the place behind them. -/
def takeWhile (c : Cursor) (p : Char → Bool) : List Char × Cursor :=
  (c.rest.takeWhile p, c.skipWhile p)

/-- To the end of the line, if only blanks and a comment are left on it. -/
def skipComment (c : Cursor) : Cursor :=
  let c := c.skipWhile isBlank
  if c.at? '#' then c.skipWhile fun ch => !(isBreak ch || isEndSign ch) else c

/-- Whether a line starts here with the mark of a document's start or end. -/
def atMarker (c : Cursor) : Bool :=
  c.column = 0 &&
    (match c.rest with
    | '-' :: '-' :: '-' :: rest => endsWord rest
    | '.' :: '.' :: '.' :: rest => endsWord rest
    | _ => false)

/-- A fault in the words of a text, which belongs to something that started at a mark. What
must not stand in the text goes before. -/
def fault {β : Type} (c : Cursor) (problem : String) (start : Mark) : Except Fault β :=
  .error (if c.spoilt then cutFault
    else { problem, mark := c.mark, context := start, inWords := true })

end Cursor

end HaloMesh.Yaml
