import HaloMesh.Text.Number
import HaloMesh.Yaml.Cursor

/-! Texts inside a data file: plain ones, quoted ones, and blocks of lines. A text that goes on
over several lines is folded: one line end counts as a blank, further ones as themselves. -/

namespace HaloMesh.Yaml

/-- Blanks and line ends inside a text. After the first line end blanks no longer count. -/
structure Gap where
  blanks : List Char := []
  first : List Char := []
  more : List Char := []
  broken : Bool := false

/-- What a gap amounts to. -/
def Gap.text (g : Gap) : List Char :=
  if !g.broken then g.blanks
  else if g.first.head? == some '\n' then if g.more.isEmpty then [' '] else g.more
  else g.first ++ g.more

/-- Past blanks and line ends. A tabulator is no indentation: before column `indent` of a
new line it is a fault. -/
def readGap (indent : Int) (start : Mark) : (steps : Nat) → Gap → Cursor → Read Gap
  | 0, g, c => .ok (g, c)
  | steps + 1, g, c =>
    let c := c.see 1
    match c.rest with
    | [] => .ok (g, c)
    | ch :: _ =>
      if isBlank ch then
        if g.broken && decide ((c.column : Int) < indent) && ch = '\t' then
          c.fault "found a tab character that violates indentation" start
        else
          readGap indent start steps
            (if g.broken then g else { g with blanks := g.blanks ++ [ch] }) c.skip
      else if isBreak ch then
        let (line, after) := c.readLine
        let g : Gap :=
          if g.broken then { g with more := g.more ++ line }
          else { g with blanks := [], first := line, broken := true }
        readGap indent start steps g after
      else .ok (g, c)

/-- The signs that end a plain text within brackets. -/
def flowSigns : List Char := [',', '?', '[', ']', '\x7b', '\x7d']

/-- Whether a plain text ends here: at a blank, at a colon before one, and within brackets at
their signs. -/
def endsPlain (inner : Bool) (cs : List Char) : Bool :=
  endsWord cs ||
    (match cs with
    | c :: rest => (c = ':' && endsWord rest) || (inner && c ∈ flowSigns)
    | [] => true)

/-- The part of a plain text up to the next blank, `taken` being read in reverse. -/
def plainRun (inner : Bool) : (steps : Nat) → Cursor → (taken : List Char) → List Char × Cursor
  | 0, c, taken => (taken, c)
  | steps + 1, c, taken =>
    match c.rest with
    | [] => (taken, c)
    | ch :: _ =>
      if endsPlain inner c.rest then (taken, c)
      else plainRun inner steps (c.skip.see 2) (ch :: taken)

/-- The rest of a plain text behind a gap. It ends at a comment, a document's mark, and
outside of brackets at a line that is not indented enough. Also told is whether it ended
behind a line end. -/
def plainMore (inner : Bool) (indent : Int) (start : Mark) :
    (steps : Nat) → Cursor → Gap → (taken : List Char) → Read (String × Bool)
  | 0, c, g, taken => .ok ((String.ofList taken.reverse, g.broken), c)
  | steps + 1, c, g, taken =>
    let c := c.see 4
    if c.atMarker || c.at? '#' then .ok ((String.ofList taken.reverse, g.broken), c)
    else
      let (run, after) := plainRun inner c.left c []
      let (taken, g) :=
        if run.isEmpty then (taken, g) else (run ++ g.text.reverse ++ taken, ({} : Gap))
      if !startsGap after.rest then .ok ((String.ofList taken.reverse, g.broken), after)
      else
        match readGap indent start (after.left + 1) g after with
        | .error f => .error f
        | .ok (g, after) =>
          if !inner && decide ((after.column : Int) < indent) then
            .ok ((String.ofList taken.reverse, g.broken), after)
          else plainMore inner indent start steps after g taken

/-- A plain text that starts here. -/
def readPlain (inner : Bool) (indent : Int) (c : Cursor) : Read (String × Bool) :=
  plainMore inner indent c.mark (c.left + 1) c {} []

/-- The characters a letter after a backslash stands for. -/
def escapes : List (Char × Nat) :=
  [('0', 0), ('a', 7), ('b', 8), ('t', 9), ('\t', 9), ('n', 10), ('v', 11), ('f', 12), ('r', 13),
    ('e', 27), (' ', 32), ('"', 34), ('\'', 39), ('\\', 92), ('N', 0x85), ('_', 0xa0),
    ('L', 0x2028), ('P', 0x2029)]

/-- The number of hexadecimal digits after a backslash and a letter. -/
def escapeWidth? : Char → Option Nat
  | 'x' => some 2
  | 'u' => some 4
  | 'U' => some 8
  | _ => none

/-- The character of an escape, which starts with a backslash. -/
def unescape (start : Mark) (c : Cursor) : Read Char :=
  match c.skip.peek? with
  | none => c.fault "found unknown escape character" start
  | some e =>
    let after := c.skip.skip
    match escapes.find? fun p => p.1 = e, escapeWidth? e with
    | some (_, n), _ => .ok (Char.ofNat n, after)
    | none, some width =>
      let after := after.see width
      let digits := after.rest.take width
      match Text.digitsValue? 16 digits with
      | some n =>
        if digits.length < width then after.fault "did not find expected hexdecimal number" start
        else if (0xd800 ≤ n ∧ n ≤ 0xdfff) ∨ 0x10ffff < n then
          after.fault "found invalid Unicode character escape code" start
        else .ok (Char.ofNat n, after.skips width)
      | none => after.fault "did not find expected hexdecimal number" start
    | none, none => c.fault "found unknown escape character" start

/-- The part of a quoted text up to a blank or its end. In double quotes a backslash escapes,
and at the end of a line joins it to the next, which is told; in single quotes a doubled
quote stands for itself. -/
def quotedRun (quote : Char) (start : Mark) :
    (steps : Nat) → Cursor → (taken : List Char) → Read (List Char × Bool)
  | 0, c, taken => .ok ((taken, false), c)
  | steps + 1, c, taken =>
    match c.rest with
    | [] => .ok ((taken, false), c)
    | ch :: rest =>
      if endsWord c.rest then .ok ((taken, false), c)
      else if ch = quote then
        if quote = '\'' && rest.head? == some '\'' then
          quotedRun quote start steps (c.skip.skip.see 2) ('\'' :: taken)
        else .ok ((taken, false), c)
      else if ch = '\\' && quote = '"' then
        if rest.head?.any isBreak then .ok ((taken, true), (c.see 3).skip.skipLine)
        else
          match unescape start c with
          | .error f => .error f
          | .ok (e, c) => quotedRun quote start steps (c.see 2) (e :: taken)
      else quotedRun quote start steps (c.skip.see 2) (ch :: taken)

/-- The rest of a quoted text. -/
def quotedMore (quote : Char) (start : Mark) :
    (steps : Nat) → Cursor → (taken : List Char) → Read String
  | 0, c, _ => c.fault "found unexpected end of stream" start
  | steps + 1, c, taken =>
    let c := c.see 4
    if c.atMarker then c.fault "found unexpected document indicator" start
    else if isOver c.rest then c.fault "found unexpected end of stream" start
    else
      match quotedRun quote start c.left c taken with
      | .error f => .error f
      | .ok ((taken, joined), c) =>
        let c := c.see 1
        if c.at? quote then .ok (String.ofList taken.reverse, c.skip)
        else
          match readGap 0 start (c.left + 1) { broken := joined } c with
          | .error f => .error f
          | .ok (g, c) => quotedMore quote start steps c (g.text.reverse ++ taken)

/-- A text in quotes that starts here. -/
def readQuoted (quote : Char) (c : Cursor) : Read String :=
  quotedMore quote c.mark (c.left + 1) c.skip []

/-- What becomes of the line ends after the last line of a block. -/
inductive Chomp where
  | strip | clip | keep
deriving DecidableEq, Repr

def Chomp.ofSign? : Char → Option Chomp
  | '+' => some .keep
  | '-' => some .strip
  | _ => none

/-- A sign after the mark of a block that tells what becomes of its end. -/
def readChomp (c : Cursor) : Option Chomp × Cursor :=
  let c := c.see 1
  match c.peek?.bind Chomp.ofSign? with
  | some chomp => (some chomp, c.skip)
  | none => (none, c)

/-- A digit after the mark of a block that tells its indentation, zero without one. -/
def readIndent (start : Mark) (c : Cursor) : Read Nat :=
  let c := c.see 1
  match c.peek? with
  | some d =>
    if d = '0' then c.fault "found an indentation indicator equal to 0" start
    else if Text.isDigit d then .ok (d.toNat - 48, c.skip)
    else .ok (0, c)
  | none => .ok (0, c)

/-- The two signs after the mark of a block, in either order. -/
def readBlockSigns (start : Mark) (c : Cursor) : Read (Chomp × Nat) :=
  let (chomp, c) := readChomp c
  match readIndent start c with
  | .error f => .error f
  | .ok (indent, c) =>
    let (later, c) := if chomp.isNone && indent ≠ 0 then readChomp c else (none, c)
    .ok (((chomp.or later).getD .clip, indent), c)

/-- Past the empty lines before a line of a block and past its indentation, with the line
ends and the widest indentation on the way. An indentation of zero is not known yet. -/
def blockBreaks (indent : Nat) (start : Mark) :
    (steps : Nat) → Cursor → (breaks : List Char) → (widest : Nat) → Read (List Char × Nat)
  | 0, c, breaks, widest => .ok ((breaks, widest), c)
  | steps + 1, c, breaks, widest =>
    let room := if indent = 0 then c.left else indent - c.column
    let c := (c.skipSome (· = ' ') room).see 1
    let widest := max widest c.column
    if (indent = 0 || decide (c.column < indent)) && c.at? '\t' then
      c.fault "found a tab character where an indentation space is expected" start
    else if c.rest.head?.any isBreak then
      let (line, c) := c.readLine
      blockBreaks indent start steps c (breaks ++ line) widest
    else .ok ((breaks, widest), c)

/-- The lines of a block. A folded block joins two lines by a blank, unless one of them
starts with one. Told are the text in reverse, the end of its last line and the line ends
behind that. -/
def blockLines (fold : Bool) (indent : Nat) (start : Mark) :
    (steps : Nat) → Cursor → (taken last breaks : List Char) → (indented : Bool) →
    Read (List Char × List Char × List Char)
  | 0, c, taken, last, breaks, _ => .ok ((taken, last, breaks), c)
  | steps + 1, c, taken, last, breaks, indented =>
    if c.column ≠ indent || isOver c.rest then .ok ((taken, last, breaks), c)
    else
      let starts := c.rest.head?.any isBlank
      let gap :=
        if fold && !indented && !starts && last.head? == some '\n' then
          if breaks.isEmpty then [' '] else breaks
        else last ++ breaks
      let (line, c) := c.takeWhile fun ch => !(isBreak ch || isEndSign ch)
      let (last, c) := c.readLine
      match blockBreaks indent start (c.left + 1) c [] 0 with
      | .error f => .error f
      | .ok ((breaks, _), c) =>
        blockLines fold indent start steps c (line.reverse ++ gap.reverse ++ taken) last breaks
          starts

/-- A block of lines whose mark stands here: kept as they are, or folded. Without a given
indentation it has that of its first line, and more than its parent's. -/
def readBlock (parent : Int) (c : Cursor) : Except Fault (String × Cursor) := do
  let start := c.mark
  let fold := c.at? '>'
  let ((chomp, given), c) ← readBlockSigns start c.skip
  let c := c.skipComment
  if !endsLine c.rest then c.fault "did not find expected comment or line break" start
  else
    let c := c.skipLine
    let given := if given = 0 then 0 else given + parent.toNat
    let ((breaks, widest), c) ← blockBreaks given start (c.left + 1) c [] 0
    let indent := if given = 0 then max (max widest (parent + 1).toNat) 1 else given
    let ((taken, last, breaks), c) ← blockLines fold indent start (c.left + 1) c [] [] breaks false
    let tail :=
      match chomp with
      | .strip => []
      | .clip => last
      | .keep => last ++ breaks
    return (String.ofList (taken.reverse ++ tail), c)

end HaloMesh.Yaml
