import HaloMesh.Json.Value
import HaloMesh.Text.Number

/-! Reading the text of a value. Nothing but blanks may stand around it. -/

namespace HaloMesh.Json

/-- A part that was read and what is left. -/
abbrev Read (β : Type) := Option (β × List Char)

def isBlank (c : Char) : Bool := c = ' ' || c = '\t' || c = '\n' || c = '\r'

def skipBlanks (cs : List Char) : List Char := cs.dropWhile isBlank

/-- What is left behind a word. -/
def afterWord? : (word : List Char) → List Char → Option (List Char)
  | [], cs => some cs
  | w :: word, c :: cs => if w = c then afterWord? word cs else none
  | _, [] => none

/-- The value of four hexadecimal digits. -/
def fourDigits? (cs : List Char) : Option Nat :=
  if (cs.take 4).length = 4 then Text.digitsValue? 16 (cs.take 4) else none

def replacement : Char := Char.ofNat 0xfffd

/-- The character of one or two units of sixteen bits, the digits of the first being read.
Half of a pair without the other stands for an unknown character. -/
def joinUnits (unit : Nat) (rest : List Char) : Char × List Char :=
  let second : Option Nat :=
    match rest with
    | '\\' :: 'u' :: ds => fourDigits? ds
    | _ => none
  if unit < 0xd800 || 0xdfff < unit then (Char.ofNat unit, rest)
  else
    match second with
    | some low =>
      if unit < 0xdc00 && 0xdc00 ≤ low && low ≤ 0xdfff then
        (Char.ofNat (0x10000 + (unit - 0xd800) * 1024 + (low - 0xdc00)), rest.drop 6)
      else (replacement, rest)
    | none => (replacement, rest)

/-- The character behind a backslash. -/
def unescape : List Char → Read Char
  | 'u' :: rest => (fourDigits? rest).map fun n => joinUnits n (rest.drop 4)
  | 'b' :: rest => some (Char.ofNat 8, rest)
  | 't' :: rest => some ('\t', rest)
  | 'n' :: rest => some ('\n', rest)
  | 'f' :: rest => some (Char.ofNat 12, rest)
  | 'r' :: rest => some ('\r', rest)
  | c :: rest => if c = '"' || c = '\\' || c = '/' then some (c, rest) else none
  | [] => none

/-- The rest of a text behind its quote, `taken` being read in reverse. -/
def readText : (steps : Nat) → List Char → (taken : List Char) → Read String
  | 0, _, _ => none
  | _, [], _ => none
  | steps + 1, c :: rest, taken =>
    if c = '"' then some (String.ofList taken.reverse, rest)
    else if c = '\\' then
      match unescape rest with
      | some (e, rest) => readText steps rest (e :: taken)
      | none => none
    else if c.toNat < 32 then none
    else readText steps rest (c :: taken)

/-- One digit or more. -/
def readDigits (cs : List Char) : Read (List Char) :=
  let ds := cs.takeWhile Text.isDigit
  if ds.isEmpty then none else some (ds, cs.dropWhile Text.isDigit)

/-- A number: no zeros in front, a digit on either side of a point, and an exponent. -/
def readNumber (cs : List Char) : Option (String × List Char) := do
  let (sign, cs) :=
    match cs with
    | '-' :: rest => (['-'], rest)
    | _ => ([], cs)
  let (front, cs) ←
    match cs with
    | '0' :: rest => some (['0'], rest)
    | _ => readDigits cs
  let (back, cs) ←
    match cs with
    | '.' :: rest => (readDigits rest).map fun (ds, rest) => ('.' :: ds, rest)
    | _ => some ([], cs)
  let (exponent, cs) ←
    match cs with
    | c :: rest =>
      if c = 'e' || c = 'E' then
        let (sign, rest) :=
          match rest with
          | '+' :: rest => (['+'], rest)
          | '-' :: rest => (['-'], rest)
          | _ => ([], rest)
        (readDigits rest).map fun (ds, rest) => (c :: sign ++ ds, rest)
      else some ([], cs)
    | [] => some ([], cs)
  some (String.ofList (sign ++ front ++ back ++ exponent), cs)

mutual

/-- A value that starts here. -/
def readValue : (fuel depth : Nat) → List Char → Read Json
  | 0, _, _ => none
  | fuel + 1, depth, cs =>
    match cs with
    | '"' :: rest => (readText fuel rest []).map fun (s, rest) => (text s, rest)
    | '[' :: rest =>
      if depth = 0 then none
      else
        match skipBlanks rest with
        | ']' :: rest => some (list [], rest)
        | rest => readItems fuel (depth - 1) rest []
    | '\x7b' :: rest =>
      if depth = 0 then none
      else
        match skipBlanks rest with
        | '\x7d' :: rest => some (object [], rest)
        | rest => readEntries fuel (depth - 1) rest []
    | 'n' :: _ => (afterWord? "null".toList cs).map fun rest => (null, rest)
    | 't' :: _ => (afterWord? "true".toList cs).map fun rest => (flag true, rest)
    | 'f' :: _ => (afterWord? "false".toList cs).map fun rest => (flag false, rest)
    | _ => (readNumber cs).map fun (digits, rest) => (number digits, rest)

/-- The items of a list up to its bracket, those before it being read in reverse. -/
def readItems : (fuel depth : Nat) → List Char → List Json → Read Json
  | 0, _, _, _ => none
  | fuel + 1, depth, cs, items =>
    match readValue fuel depth cs with
    | none => none
    | some (item, rest) =>
      match skipBlanks rest with
      | ',' :: rest => readItems fuel depth (skipBlanks rest) (item :: items)
      | ']' :: rest => some (list (item :: items).reverse, rest)
      | _ => none

/-- The entries of an object up to its brace, those before it being read in reverse. -/
def readEntries : (fuel depth : Nat) → List Char → List (String × Json) → Read Json
  | 0, _, _, _ => none
  | fuel + 1, depth, cs, entries =>
    match cs with
    | '"' :: rest =>
      match readText fuel rest [] with
      | none => none
      | some (name, rest) =>
        match skipBlanks rest with
        | ':' :: rest =>
          match readValue fuel depth (skipBlanks rest) with
          | none => none
          | some (j, rest) =>
            match skipBlanks rest with
            | ',' :: rest => readEntries fuel depth (skipBlanks rest) ((name, j) :: entries)
            | '\x7d' :: rest => some (object ((name, j) :: entries).reverse, rest)
            | _ => none
        | _ => none
    | _ => none

end

/-- Reads a text that holds one value. -/
def parse? (s : String) : Option Json :=
  match readValue (2 * s.length + 2) depthLimit (skipBlanks s.toList) with
  | some (j, rest) => if (skipBlanks rest).isEmpty then some j else none
  | none => none

end HaloMesh.Json
