import HaloMesh.Named
import HaloMesh.Text.Quoted

/-! Values of data exchange and their text. A number is kept as it is written, so that no
digit of it is lost. -/

namespace HaloMesh

inductive Json where
  | null
  | flag (b : Bool)
  | number (digits : String)
  | text (s : String)
  | list (items : List Json)
  | object (entries : List (String × Json))
deriving Inhabited

namespace Json

/-- The entries of an object in the order of their names, the last of each name. -/
def fields : Json → List (String × Json)
  | object entries => Named.sorted entries
  | _ => []

/-- The value of a name, nothing where there is none. -/
def get (j : Json) (name : String) : Json :=
  match j with
  | object entries => (Named.find? entries.reverse name).getD null
  | _ => null

/-- The escapes with a letter of their own. -/
def escapeLetter? (c : Char) : Option Char :=
  match c.toNat with
  | 8 => some 'b'
  | 9 => some 't'
  | 10 => some 'n'
  | 12 => some 'f'
  | 13 => some 'r'
  | 34 => some '"'
  | 92 => some '\\'
  | _ => none

/-- Controls, the signs of markup and the two separators of lines and paragraphs are
escaped. -/
def escape (c : Char) : List Char :=
  let n := c.toNat
  match escapeLetter? c with
  | some letter => ['\\', letter]
  | none =>
    if n < 32 || c = '<' || c = '>' || c = '&' || n = 0x2028 || n = 0x2029 then
      '\\' :: 'u' :: Text.hex 4 n
    else [c]

/-- A text in quotes. -/
def quoted (s : String) : String :=
  String.ofList ('"' :: (s.toList.flatMap escape ++ ['"']))

mutual

/-- Writes a value behind a text. -/
def write : Json → String → String
  | null, out => out ++ "null"
  | flag b, out => out ++ (if b then "true" else "false")
  | number digits, out => out ++ digits
  | text s, out => out ++ quoted s
  | list items, out => writeItems items true (out ++ "[") ++ "]"
  | object entries, out => writeEntries entries true (out ++ "\x7b") ++ "\x7d"

def writeItems : List Json → (first : Bool) → String → String
  | [], _, out => out
  | j :: rest, first, out => writeItems rest false (j.write (if first then out else out ++ ","))

def writeEntries : List (String × Json) → (first : Bool) → String → String
  | [], _, out => out
  | (name, j) :: rest, first, out =>
    writeEntries rest false (j.write ((if first then out else out ++ ",") ++ quoted name ++ ":"))

end

/-- The text of a value, on one line and without blanks. -/
def render (j : Json) : String := j.write ""

/-- How deep lists and objects may be nested. -/
def depthLimit : Nat := 10000

mutual

/-- The bracket that opens the first list or object with too many around it. -/
def tooDeep? : Json → (depth : Nat) → Option Char
  | list _, 0 => some '['
  | list items, depth + 1 => tooDeepItem? items depth
  | object _, 0 => some '\x7b'
  | object entries, depth + 1 => tooDeepMember? entries depth
  | _, _ => none

def tooDeepItem? : List Json → (depth : Nat) → Option Char
  | [], _ => none
  | j :: rest, depth => (j.tooDeep? depth).or (tooDeepItem? rest depth)

def tooDeepMember? : List (String × Json) → (depth : Nat) → Option Char
  | [], _ => none
  | (_, j) :: rest, depth => (j.tooDeep? depth).or (tooDeepMember? rest depth)

end

/-- What is wrong with a value as a text to be read, if it is nested too deep. -/
def depthFault? (j : Json) : Option String :=
  (j.tooDeep? depthLimit).map fun c => s!"invalid character '{c}' exceeded max depth"

end Json

end HaloMesh
