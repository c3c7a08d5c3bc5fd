import HaloMesh.Config.Tree
import HaloMesh.Text.Search

/-! Files of variables as a shell would set them, one on each line. The value may stand in
quotes, and a name in capitals behind a dollar sign stands for the value of an earlier
variable. -/

namespace HaloMesh.Config.Dotenv

def isSpace (c : Char) : Bool :=
  c = ' ' || c = '\t' || c = '\n' || c = '\x0c' || c = '\r'

def isKeyChar (c : Char) : Bool := c.isAlphanum || c = '_' || c = '.'

/-- Whether nothing but a comment is left. -/
def isOver (cs : List Char) : Bool :=
  match cs.dropWhile isSpace with
  | [] => true
  | c :: _ => c = '#'

/-- A value in quotes up to the last one that nothing but a comment follows. -/
def quoted? (quote : Char) (cs : List Char) : Option (List Char) :=
  match cs with
  | c :: rest =>
    if c = quote then
      ((List.range rest.length).reverse.find? fun n =>
        rest[n]? == some quote && isOver (rest.drop (n + 1))).map fun n =>
          c :: rest.take (n + 1)
    else none
  | [] => none

/-- The value that starts here: in quotes, or up to a comment. -/
def value (cs : List Char) : List Char :=
  ((quoted? '\'' cs).or (quoted? '"' cs)).getD (cs.takeWhile fun c => c ≠ '#' && c ≠ '\n')

/-- What follows the sign between a name and its value: an equals sign, or a colon and a
blank. -/
def afterDivider? (cs : List Char) : Option (List Char) :=
  match cs.dropWhile isSpace, cs with
  | '=' :: rest, _ => some (rest.dropWhile isSpace)
  | _, ':' :: c :: rest => if isSpace c then some rest else none
  | _, _ => none

/-- A name and its value. -/
def assignment? (cs : List Char) : Option (String × List Char) := do
  let key := cs.takeWhile isKeyChar
  if key.isEmpty then none
  return (String.ofList key, value (← afterDivider? (cs.dropWhile isKeyChar)))

/-- A line with an assignment, which may be marked for export. -/
def line? (cs : List Char) : Option (String × List Char) :=
  let cs := cs.dropWhile isSpace
  let exported := do
    let rest ← Text.after? "export".toList cs
    if rest.head?.any isSpace then assignment? (rest.dropWhile isSpace) else none
  exported.or (assignment? cs)

/-- Takes the quotes off both ends. -/
def unquoted (cs : List Char) : List Char :=
  let isQuote (c : Char) : Bool := c = '\'' || c = '"'
  if 2 ≤ cs.length && cs.head?.any isQuote && cs.getLast?.any isQuote then
    (cs.drop 1).dropLast
  else cs

/-- Drops the backslash before every sign but a dollar. -/
def unescaped : List Char → List Char
  | '\\' :: c :: rest => if c = '$' then '\\' :: c :: unescaped rest else c :: unescaped rest
  | c :: rest => c :: unescaped rest
  | [] => []

def isNameChar (c : Char) : Bool := c.isUpper || c.isDigit || c = '_'

/-- Splits a name, which may stand in braces, off the text behind a dollar sign: what was
written, the name, and what is left. -/
def splitName (cs : List Char) : List Char × List Char × List Char :=
  let inner := if cs.head? = some '\x7b' then cs.drop 1 else cs
  let name := inner.takeWhile isNameChar
  let rest := inner.dropWhile isNameChar
  let rest := if rest.head? = some '\x7d' then rest.drop 1 else rest
  (cs.take (cs.length - rest.length), name, rest)

abbrev Variables := List (String × List Char)

/-- Puts values for names. A backslash before the dollar sign, or single quotes around all,
keep it. -/
def substituted (known : Variables) (single : Bool) : (steps : Nat) → List Char → List Char
  | 0, cs => cs
  | _, [] => []
  | steps + 1, '\\' :: '$' :: rest =>
    let (written, _, rest) := splitName rest
    '$' :: written ++ substituted known single steps rest
  | steps + 1, '$' :: rest =>
    let (written, name, rest) := splitName rest
    (if single || name.isEmpty then '$' :: written
      else (Named.find? known (String.ofList name)).getD [])
      ++ substituted known single steps rest
  | steps + 1, c :: rest => c :: substituted known single steps rest

/-- The meaning of a written value. -/
def meaning (known : Variables) (written : List Char) : List Char :=
  let isPlainSpace (c : Char) : Bool := c = ' '
  let trimmed := ((written.dropWhile isPlainSpace).reverse.dropWhile isPlainSpace).reverse
  let inner := unquoted trimmed
  let inner :=
    if written.head? = some '"' then
      let steps := inner.length
      unescaped (Text.replaceAll ['\\', 'r'] ['\r'] steps
        (Text.replaceAll ['\\', 'n'] ['\n'] steps inner))
    else inner
  substituted known (written.head? = some '\'') (inner.length + 1) inner

/-- The pieces of a value that holds an equals sign: its lines, or what carriage returns
divide. -/
def pieces (value : List Char) : List (List Char) :=
  let parts (mark : String) : List (List Char) :=
    ((String.ofList value).splitOn mark).map String.toList
  if !value.contains '=' then [value]
  else if value.contains '\n' then parts "\n"
  else parts "\r"

/-- Adds the variable of a line. Of a value in pieces the others are lines of their own, which
come before it and count if they are right. -/
def addLine : (depth : Nat) → Variables → List Char → Option Variables
  | 0, _, _ => none
  | depth + 1, known, cs => do
    let (key, written) ← line? cs
    let value := pieces (meaning known written)
    let known := (value.drop 1).foldl (fun known piece =>
      (addLine depth known piece).getD known) known
    return Named.assign key (value.headD []) known

/-- How deep lines may stand inside values. -/
def depthLimit : Nat := 100

/-- The length that a line has to stay below. -/
def lineLimit : Nat := 65536

/-- The lines of a text without their ends, up to one that is too long. -/
def linesOf (text : String) : List (List Char) :=
  let lines := (text.splitOn "\n").takeWhile fun l => l.utf8ByteSize < lineLimit
  let lines := lines.map fun l =>
    let cs := l.toList
    if cs.getLast? = some '\r' then cs.dropLast else cs
  if lines.getLast? = some [] then lines.dropLast else lines

/-- The settings of a text. Every line is empty, a comment or an assignment. -/
def read? {α : Type} (text : String) : Option (Entries α) := do
  let text := (Text.after? [Char.ofNat 0xfeff] text.toList).getD text.toList
  let settings ← (linesOf (String.ofList text)).foldlM (fun known cs =>
    match (Text.trimBlanks (String.ofList cs)).toList with
    | [] => some known
    | c :: _ => if c = '#' then some known else addLine depthLimit known cs) []
  return settings.map fun (key, value) => (key, .text (String.ofList value))

end HaloMesh.Config.Dotenv
