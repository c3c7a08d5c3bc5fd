import HaloMesh.Text.Date
import HaloMesh.Yaml.Cursor
import HaloMesh.Yaml.Word

/-! Writing data files: an entry a line, and lists on one line. A key is written plain where that
is not mistaken for something else, and in quotes elsewhere. -/

namespace HaloMesh.Yaml

/-- The characters that are written as they are. -/
def isPrintable (c : Char) : Bool :=
  let n := c.toNat
  n = 10 || (0x20 ≤ n && n ≤ 0x7e) || (0xa0 ≤ n && n ≤ 0xfffd && n ≠ 0xfeff)

/-- The signs that a plain text does not start with. -/
def leadingSigns : List Char :=
  ['#', ',', '[', ']', '\x7b', '\x7d', '&', '*', '!', '|', '>', '\'', '"', '%', '@', '\x60']

/-- Whether a blank or the end follows. -/
def beforeBlank : List Char → Bool
  | [] => true
  | c :: _ => isBlank c

/-- Whether a colon before a blank or a number sign behind one stands in a text. -/
def hasInnerSign : (last : Char) → List Char → Bool
  | _, [] => false
  | last, c :: rest =>
    (c = ':' && beforeBlank rest) || (c = '#' && (isBlank last || isEndSign last)) ||
      hasInnerSign c rest

/-- Whether a text looks like part of the structure of a file. -/
def looksStructural (cs : List Char) : Bool :=
  match cs with
  | [] => true
  | c :: rest =>
    cs.take 3 = "---".toList || cs.take 3 = "...".toList || c ∈ leadingSigns ||
      ((c = '?' || c = ':' || c = '-') && beforeBlank rest) || hasInnerSign c rest

/-- Whether a text can be written without quotes. -/
def isPlainText (s : String) : Bool :=
  let cs := s.toList
  !looksStructural cs && cs.all (fun c => isPrintable c && !isBreak c) &&
    !(cs.head? == some ' ') && !(cs.getLast? == some ' ') &&
    kindName (meaning s) = "str" && !Text.isDate s

/-- A character in quotes. -/
def escapeChar (c : Char) : List Char :=
  let n := c.toNat
  if c = '"' || c = '\\' then ['\\', c]
  else if isPrintable c && !isBreak c then [c]
  else if n ≤ 0xff then '\\' :: 'x' :: Text.hex 2 n
  else if n ≤ 0xffff then '\\' :: 'u' :: Text.hex 4 n
  else '\\' :: 'U' :: Text.hex 8 n

/-- A text in quotes. -/
def quotedForm (s : String) : String :=
  String.ofList ('"' :: (s.toList.flatMap escapeChar ++ ['"']))

/-- A text as a key. -/
def keyForm (s : String) : String := if isPlainText s then s else quotedForm s

/-- How many bytes a key may have that stands before its colon on one line. -/
def shortKey : Nat := 128

/-- A key up to its colon. A long one has a mark of its own and a line for itself. -/
def keyLead (indent : String) (s : String) : String :=
  if s.utf8ByteSize ≤ shortKey then indent ++ keyForm s ++ ":"
  else indent ++ "? " ++ keyForm s ++ "\n" ++ indent ++ ":"

mutual

/-- A value on one line. -/
def inlineForm : Value → String
  | .null => "null"
  | .flag b => if b then "true" else "false"
  | .whole n => toString n
  | .word n => toString n
  | .real n => Decimal.messageText n.toDouble
  | .text s => quotedForm s
  | .list items => "[" ++ ", ".intercalate (inlineItems items) ++ "]"
  | .table entries => "\x7b" ++ ", ".intercalate (inlineEntries entries) ++ "\x7d"

def inlineItems : List Value → List String
  | [] => []
  | v :: rest => inlineForm v :: inlineItems rest

def inlineEntries : List (Value × Value) → List String
  | [] => []
  | (k, v) :: rest => (inlineForm k ++ ": " ++ inlineForm v) :: inlineEntries rest

end

mutual

/-- A value behind its key: a table on the lines below, further in. -/
def valueForm (indent : String) : Value → String
  | .table (e :: rest) => "\n" ++ entryForms (indent ++ "  ") (e :: rest)
  | v => " " ++ inlineForm v ++ "\n"

/-- The entries of a table. -/
def entryForms (indent : String) : List (Value × Value) → String
  | [] => ""
  | (.text key, v) :: rest =>
    keyLead indent key ++ valueForm indent v ++ entryForms indent rest
  | (k, v) :: rest =>
    indent ++ inlineForm k ++ ":" ++ valueForm indent v ++ entryForms indent rest

end

/-- The text of a data file. -/
def write : Value → String
  | .table (e :: rest) => entryForms "" (e :: rest)
  | v => inlineForm v ++ "\n"

end HaloMesh.Yaml
