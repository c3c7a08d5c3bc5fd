import HaloMesh.Yaml.Phrase
import HaloMesh.Yaml.Token

/-! Cutting a text into words. What starts a line may turn out to be a key when a colon follows
it, so a word is given out only when that is settled; no more of the text is looked at than
this takes. -/

namespace HaloMesh.Yaml

/-- A place where a key may have started. It is required where nothing but a key can stand. -/
structure KeyPlace where
  possible : Bool := false
  required : Bool := false
  /-- The number of the word that would follow the sign of a key. -/
  number : Nat := 0
  mark : Mark := {}

structure Lexer where
  cursor : Cursor
  /-- Words that were cut off and not given out yet. -/
  queue : List Placed := []
  /-- How many words were given out. -/
  taken : Nat := 0
  indent : Int := -1
  indents : List Int := []
  /-- The place of a key within each bracket, the innermost first, and outside of them. -/
  places : List KeyPlace := [{}]
  /-- The number of brackets around. -/
  depth : Nat := 0
  /-- Words that wait for their place to be settled, with the depth of that place. -/
  waiting : List (Nat × Nat) := []
  keyAllowed : Bool := true
  started : Bool := false

namespace Lexer

def inFlow (l : Lexer) : Bool := decide (0 < l.depth)

/-- The innermost place of a key. -/
def place (l : Lexer) : KeyPlace := l.places.headD {}

def setPlace (l : Lexer) (p : KeyPlace) : Lexer :=
  { l with places := p :: l.places.drop 1 }

/-- The place of a key at a depth. -/
def placeAt? (l : Lexer) (depth : Nat) : Option KeyPlace :=
  if depth ≤ l.depth then l.places[l.depth - depth]? else none

/-- The number the next word gets. -/
def nextNumber (l : Lexer) : Nat := l.taken + l.queue.length

def settle (l : Lexer) (number : Nat) : Lexer :=
  { l with waiting := l.waiting.filter fun w => w.1 ≠ number }

def fault {β : Type} (l : Lexer) (problem : String) (start : Mark) : Except Fault β :=
  l.cursor.fault problem start

def keyExpected : String := "could not find expected ':'"

/-- How far a colon may be from the start of its key. -/
def keyReach : Nat := 1024

/-- Whether a place may still be that of a key: a key ends on its line and within reach. A
required one that is not is a fault. -/
def isOpen (l : Lexer) (p : KeyPlace) : Except Fault Bool :=
  let mark := l.cursor.mark
  if !p.possible then .ok false
  else if p.mark.line < mark.line || p.mark.index + keyReach < mark.index then
    if p.required then l.fault keyExpected p.mark else .ok false
  else .ok true

/-- No key starts at the innermost place. -/
def dropPlace (l : Lexer) : Except Fault Lexer :=
  let p := l.place
  if !p.possible then .ok l
  else if p.required then l.fault keyExpected p.mark
  else .ok ((l.setPlace { p with possible := false }).settle p.number)

/-- A key may start here. -/
def savePlace (l : Lexer) : Except Fault Lexer :=
  if !l.keyAllowed then .ok l
  else do
    let p : KeyPlace :=
      { possible := true
        required := !l.inFlow && decide (l.indent = l.cursor.column)
        number := l.nextNumber
        mark := l.cursor.mark }
    let l ← l.dropPlace
    return { l.setPlace p with waiting := (p.number, l.depth) :: l.waiting }

/-- A word at the end of the queue. -/
def push (l : Lexer) (t : Token) (mark : Mark) : Lexer :=
  { l with queue := l.queue ++ [⟨t, mark⟩] }

/-- A word before the one with a number, at the end if that one was given out already. -/
def insert (l : Lexer) (number : Nat) (t : Token) (mark : Mark) : Lexer :=
  if number < l.taken then l.push t mark
  else { l with queue := l.queue.insertIdx (number - l.taken) ⟨t, mark⟩ }

/-- How deep collections may be nested. -/
def depthLimit : Nat := 10000

def tooDeep : String := "exceeded max depth of 10000"

/-- A collection of lines starts at a column further in than those around it, before the word
with a number or here. -/
def openBlock (l : Lexer) (column : Nat) (number : Option Nat) (t : Token) (mark : Mark) :
    Except Fault Lexer :=
  if l.inFlow || decide ((column : Int) ≤ l.indent) then .ok l
  else
    let l := { l with indents := l.indent :: l.indents, indent := column }
    if depthLimit < l.indents.length then l.fault tooDeep l.place.mark
    else
      match number with
      | some n => .ok (l.insert n t mark)
      | none => .ok (l.push t mark)

/-- Ends the collections of lines that start further in than a column. -/
def closeBlocks (column : Int) : (steps : Nat) → Lexer → Lexer
  | 0, l => l
  | steps + 1, l =>
    if l.inFlow || decide (l.indent ≤ column) then l
    else
      closeBlocks column steps
        { l.push .blockEnd l.cursor.mark with
          indent := l.indents.headD (-1), indents := l.indents.drop 1 }

def unroll (l : Lexer) (column : Int) : Lexer := closeBlocks column (l.indents.length + 1) l

/-- Past a number of signs that are a word. -/
def take (l : Lexer) (n : Nat) (t : Token) : Lexer :=
  { l.push t l.cursor.mark with cursor := l.cursor.skips n }

/-- To the next word: past blanks, comments and line ends. A tabulator is no blank where a key
may start. -/
def toNextWord : (steps : Nat) → Lexer → Lexer
  | 0, l => l
  | steps + 1, l =>
    let c := l.cursor.see 1
    let c := if c.marked && c.column = 0 then c.skip else c
    let tabs := l.inFlow || !l.keyAllowed
    let c := c.skipWhile fun ch => ch = ' ' || (tabs && ch = '\t')
    let c := if c.at? '#' then c.skipWhile fun ch => !(isBreak ch || isEndSign ch) else c
    if c.rest.head?.any isBreak then
      toNextWord steps { l with cursor := c.skipLine, keyAllowed := l.keyAllowed || !l.inFlow }
    else { l with cursor := c }

/-- The end of the text, which counts as a line of its own. -/
def finish (l : Lexer) : Except Fault Lexer := do
  let c := l.cursor
  let mark : Mark := if c.column = 0 then c.mark else ⟨c.mark.index, c.mark.line + 1, 0⟩
  let l := { l with cursor := { c with mark } }
  let l ← (l.unroll (-1)).dropPlace
  return { l with keyAllowed := false }.push .streamEnd mark

/-- Between documents nothing is open. -/
def leaveDocument (l : Lexer) : Except Fault Lexer := do
  let l ← (l.unroll (-1)).dropPlace
  return { l with keyAllowed := false }

def openBracket (l : Lexer) (t : Token) : Except Fault Lexer := do
  let number := l.nextNumber
  let l ← l.savePlace
  let p : KeyPlace := { number, mark := l.cursor.mark }
  let l := { l with places := p :: l.places, depth := l.depth + 1 }
  if depthLimit < l.depth then l.fault tooDeep p.mark
  else return { l with keyAllowed := true }.take 1 t

def closeBracket (l : Lexer) (t : Token) : Except Fault Lexer := do
  let l ← l.dropPlace
  let l :=
    if l.inFlow then
      { l.settle l.place.number with places := l.places.drop 1, depth := l.depth - 1 }
    else l
  return { l with keyAllowed := false }.take 1 t

def readComma (l : Lexer) : Except Fault Lexer := do
  let l ← l.dropPlace
  return { l with keyAllowed := true }.take 1 .comma

def readItem (l : Lexer) : Except Fault Lexer := do
  let c := l.cursor
  if !l.inFlow && !l.keyAllowed then
    l.fault "block sequence entries are not allowed in this context" c.mark
  else
    let l ← l.openBlock c.column none .blockItems c.mark
    let l ← l.dropPlace
    return { l with keyAllowed := true }.take 1 .item

def readKey (l : Lexer) : Except Fault Lexer := do
  let c := l.cursor
  if !l.inFlow && !l.keyAllowed then
    l.fault "mapping keys are not allowed in this context" c.mark
  else
    let l ← l.openBlock c.column none .blockEntries c.mark
    let l ← l.dropPlace
    return { l with keyAllowed := !l.inFlow }.take 1 .key

/-- A colon makes a key of what started at the innermost place, if that is still open. -/
def readValue (l : Lexer) : Except Fault Lexer := do
  let c := l.cursor
  let p := l.place
  if ← l.isOpen p then
    let l := l.insert p.number .key p.mark
    let l ← l.openBlock p.mark.column (some p.number) .blockEntries p.mark
    let l := (l.setPlace { p with possible := false }).settle p.number
    return { l with keyAllowed := false }.take 1 .value
  else
    let l := l.setPlace { p with possible := false }
    if l.inFlow then return { l with keyAllowed := false }.take 1 .value
    else if !l.keyAllowed then l.fault "mapping values are not allowed in this context" c.mark
    else
      let l ← l.openBlock c.column none .blockEntries c.mark
      return { l with keyAllowed := true }.take 1 .value

/-- A word that may start a key, and what comes behind it. -/
def readWord {β : Type} (l : Lexer) (read : Cursor → Read β) (token : β → Token) :
    Except Fault Lexer := do
  let mark := l.cursor.mark
  let l ← l.savePlace
  let (b, cursor) ← read l.cursor
  return { l with keyAllowed := false, cursor }.push (token b) mark

/-- A plain text. Behind a line end a key may follow it. -/
def readPlainWord (l : Lexer) : Except Fault Lexer := do
  let mark := l.cursor.mark
  let l ← l.savePlace
  let ((s, broken), cursor) ← readPlain l.inFlow (l.indent + 1) l.cursor
  return { l with keyAllowed := broken, cursor }.push (.text s true) mark

/-- A block of lines. A key may follow it. -/
def readBlockWord (l : Lexer) : Except Fault Lexer := do
  let mark := l.cursor.mark
  let l ← l.dropPlace
  let (s, cursor) ← readBlock l.indent l.cursor
  return { l with keyAllowed := true, cursor }.push (.text s false) mark

/-- The signs that cannot start a plain text. -/
def reserved : List Char :=
  ['-', '?', ':', ',', '[', ']', '\x7b', '\x7d', '#', '&', '*', '!', '|', '>', '\'', '"', '%', '@',
    '\x60']

/-- Whether a plain text starts here. A dash starts one before anything but a blank, and so do
a question mark and a colon outside of brackets. -/
def startsPlain (l : Lexer) : Bool :=
  match l.cursor.rest with
  | [] => false
  | c :: rest =>
    (!endsWord (c :: rest) && c ∉ reserved) || (c = '-' && !rest.head?.any isBlank) ||
      (!l.inFlow && (c = '?' || c = ':') && !endsWord rest)

def strayCharacter : String := "found character that cannot start any token"

/-- The word that starts here. -/
def readToken (l : Lexer) : Except Fault Lexer :=
  let c := l.cursor
  let apart := endsWord (c.rest.drop 1)
  match c.rest with
  | [] => l.finish
  | ch :: _ =>
    if isEndSign ch then l.finish
    else if c.column = 0 && ch = '%' then do
      let l ← l.leaveDocument
      let (d, cursor) ← readDirective c
      return { l with cursor }.push (.directive d) c.mark
    else if c.atMarker then do
      let l ← l.leaveDocument
      return l.take 3 (if ch = '-' then .documentStart else .documentEnd)
    else if ch = '[' then l.openBracket .flowItems
    else if ch = '\x7b' then l.openBracket .flowEntries
    else if ch = ']' then l.closeBracket .flowItemsEnd
    else if ch = '\x7d' then l.closeBracket .flowEntriesEnd
    else if ch = ',' then l.readComma
    else if ch = '-' && apart then l.readItem
    else if ch = '?' && (l.inFlow || apart) then l.readKey
    else if ch = ':' && (l.inFlow || apart) then l.readValue
    else if ch = '*' then l.readWord readName .alias
    else if ch = '&' then l.readWord readName .anchor
    else if ch = '!' then l.readWord readTag .tag
    else if (ch = '|' || ch = '>') && !l.inFlow then l.readBlockWord
    else if ch = '\'' || ch = '"' then l.readWord (readQuoted ch) fun s => .text s false
    else if l.startsPlain then l.readPlainWord
    else l.fault strayCharacter c.mark

/-- Goes on unless a character was seen that must not stand in the text. -/
def checked (l : Lexer) : Except Fault Lexer :=
  if l.cursor.spoilt then .error cutFault else .ok l

/-- How many characters tell one word from another. -/
def wordReach : Nat := 4

/-- One more word, or several if collections end before it. -/
def readNext (l : Lexer) : Except Fault Lexer := do
  let l ← { l with cursor := l.cursor.see 1 }.checked
  if !l.started then return { l with started := true }.push .streamStart l.cursor.mark
  else
    let l := toNextWord (l.cursor.left + 1) l
    let l := l.unroll l.cursor.column
    let l ← { l with cursor := l.cursor.see wordReach }.checked
    (← l.readToken).checked

/-- Whether the first word of the queue can be given out. -/
def isSettled (l : Lexer) : Except Fault Bool :=
  if l.queue.isEmpty then .ok false
  else
    match (l.waiting.find? fun w => w.1 = l.taken).bind fun w => l.placeAt? w.2 with
    | none => .ok true
    | some p => (l.isOpen p).map (!·)

/-- Cuts off words until the first of the queue is settled. -/
def fill : (steps : Nat) → Lexer → Except Fault Lexer
  | 0, l => .ok l
  | steps + 1, l => do
    if ← l.isSettled then return l
    else fill steps (← l.readNext)

/-- The next word, which stays in the queue. -/
def peek (l : Lexer) : Except Fault (Placed × Lexer) := do
  let l ← fill (l.cursor.left + 2) l
  return (l.queue.headD ⟨.streamEnd, l.cursor.mark⟩, l)

/-- Past the first word of the queue. -/
def drop (l : Lexer) : Lexer := { l with queue := l.queue.drop 1, taken := l.taken + 1 }

end Lexer

end HaloMesh.Yaml
