import HaloMesh.Text.Bytes
import HaloMesh.Text.Digit
import HaloMesh.Text.Letter
import HaloMesh.Text.Search

/-! The words of files of settings and blocks. -/

namespace HaloMesh.Config.Hcl

inductive Token where
  | word (s : String)
  /-- A text in quotes, none if an escape in it names no character. -/
  | text (s : Option String)
  /-- A text of several lines up to a line with its name. -/
  | lines (s : String)
  | whole (digits : List Char)
  | real (digits : List Char)
  | flag (b : Bool)
  /-- A value that is left out. -/
  | null
  | openBrace | closeBrace
  | openBracket | closeBracket
  | comma | assign | colon
  /-- A sign without a meaning. -/
  | stray
  /-- The end of the text. -/
  | finish
deriving DecidableEq, Repr

def isBlank (c : Char) : Bool := c = ' ' || c = '\t' || c = '\n' || c = '\r'

def startsWord (c : Char) : Bool := Text.isLetter c || c = '_'

def isNameChar (c : Char) : Bool := startsWord c || Text.isScriptDigit c

/-- What a backslash and the signs behind it stand for. -/
inductive Escape where
  | sign (c : Char)
  | byte (n : Nat)
  | code (n : Nat)

/-- The number that the first signs are, if all of them are digits. -/
def digits? (base count : Nat) (cs : List Char) : Option Nat :=
  if (cs.take count).length < count then none else Text.digitsValue? base (cs.take count)

/-- The escape behind a backslash, and how many signs it has. -/
def escape? : List Char → Option (Escape × Nat)
  | 'a' :: _ => some (.sign (Char.ofNat 7), 1)
  | 'b' :: _ => some (.sign (Char.ofNat 8), 1)
  | 'f' :: _ => some (.sign (Char.ofNat 12), 1)
  | 'n' :: _ => some (.sign '\n', 1)
  | 'r' :: _ => some (.sign '\r', 1)
  | 't' :: _ => some (.sign '\t', 1)
  | 'v' :: _ => some (.sign (Char.ofNat 11), 1)
  | '\\' :: _ => some (.sign '\\', 1)
  | '"' :: _ => some (.sign '"', 1)
  | 'x' :: rest => (digits? 16 2 rest).map fun n => (.byte n, 3)
  | 'u' :: rest => (digits? 16 4 rest).map fun n => (.code n, 5)
  | 'U' :: rest => (digits? 16 8 rest).map fun n => (.code n, 9)
  | cs => (digits? 8 3 cs).map fun n => (.byte n, 3)

/-- The bytes of an escape, none if there is no such byte or character. Where codes are not
taken strictly, one in the gap among them is unknown, and of a negative one the lowest byte
counts. -/
def Escape.bytes? (strict : Bool) : Escape → Option (List UInt8)
  | .sign c => some (String.utf8EncodeChar c)
  | .byte n => if n < 256 then some [n.toUInt8] else none
  | .code n =>
    if n.isValidChar || (!strict && n < 0x110000) then
      some (String.utf8EncodeChar (Text.ofCode n))
    else if !strict && 0x80000000 ≤ n then some [n.toUInt8]
    else none

/-- Splits a text behind the brace that closes the open ones. -/
def throughBraces : (braces : Nat) → List Char → List Char × List Char
  | 0, cs => ([], cs)
  | _, [] => ([], [])
  | braces + 1, c :: cs =>
    let braces := if c = '\x7b' then braces + 2 else if c = '\x7d' then braces else braces + 1
    let (front, rest) := throughBraces braces cs
    (c :: front, rest)

/-- The bytes of what stands between quotes. Between a dollar sign with a brace and the brace
that closes it nothing is escaped, unless escapes are taken strictly. -/
def bytesOf? (strict : Bool) : (steps : Nat) → List Char → Option (List UInt8)
  | 0, _ => none
  | _, [] => some []
  | steps + 1, c :: rest =>
    if c = '\\' then do
      let (e, width) ← escape? rest
      let bytes ← e.bytes? strict
      return bytes ++ (← bytesOf? strict steps (rest.drop width))
    else if !strict && c = '$' && rest.head? = some '\x7b' then do
      let (front, rest) := throughBraces 1 (rest.drop 1)
      if front.any fun c => c.toNat = 0xfffd then none
      let bytes := ('$' :: '\x7b' :: front).flatMap String.utf8EncodeChar
      return bytes ++ (← bytesOf? strict steps rest)
    else do return String.utf8EncodeChar c ++ (← bytesOf? strict steps rest)

/-- A text in quotes by what stands between them. -/
def quotedToken (strict : Bool) (raw : List Char) : Token :=
  .text ((bytesOf? strict (raw.length + 1) raw).map Text.ofBytes)

/-- What stands between quotes, the first of which is read; `braces` counts the open braces
of an expression, in which quotes have no meaning. -/
def readQuoted : (steps braces : Nat) → (taken : List Char) → List Char →
    Option (List Char × List Char)
  | 0, _, _, _ => none
  | _, _, _, [] => none
  | steps + 1, braces, taken, c :: rest =>
    if c = '"' && braces = 0 then some (taken.reverse, rest)
    else if c = '\n' && braces = 0 then none
    else if c = '$' && braces = 0 && rest.head? = some '\x7b' then
      readQuoted steps 1 ('\x7b' :: c :: taken) (rest.drop 1)
    else if c = '\\' then
      match escape? rest with
      | some (_, width) =>
        readQuoted steps braces ((rest.take width).reverse ++ c :: taken) (rest.drop width)
      | none => none
    else
      let braces :=
        if braces = 0 then 0
        else if c = '\x7b' then braces + 1
        else if c = '\x7d' then braces - 1
        else braces
      readQuoted steps braces (c :: taken) rest

/-- The blanks that can stand before the name that ends a text of lines. -/
def isIndent (c : Char) : Bool := isBlank c || c = '\x0b' || c = '\x0c'

/-- The lines up to the one that ends them, that one included, and what is left. -/
def throughName (name : List Char) (least : Nat) : (steps : Nat) → (taken : List Char) →
    List Char → Option (List Char × List Char)
  | 0, _, _ => none
  | steps + 1, taken, cs =>
    let line := cs.takeWhile (· ≠ '\n')
    match cs.dropWhile (· ≠ '\n') with
    | [] => none
    | _ :: rest =>
      let bare := ((line.dropWhile isIndent).reverse.dropWhile (· = '\r')).reverse
      let taken := taken ++ line ++ ['\n']
      if least ≤ (String.ofList line).utf8ByteSize && bare = name then some (taken, rest)
      else throughName name least steps taken rest

/-- The lines of an indented text without the blanks that the line with its name starts with.
Where some line does not start with them nothing but the blanks at the end goes. -/
def unindented (name written : List Char) : String :=
  let cut := String.ofList (written.take (written.length - (name.length + 1)))
  let lines := (cut.splitOn "\n").map String.toList
  let indent := lines.getLastD []
  if lines.all fun l => (Text.after? indent l).isSome then
    "\n".intercalate (lines.dropLast.map (fun l => String.ofList (l.drop indent.length)) ++ [""])
  else
    let front := written.take (written.length - (name.length + 2))
    String.ofList (front.reverse.dropWhile fun c => c = ' ' || c = '\t').reverse

/-- A text of lines, its first sign being read. A minus before the name takes the indentation
off. -/
def readLines : List Char → Option (String × List Char)
  | '<' :: cs =>
    let indented : Bool := cs.head? = some '-'
    let cs := if indented then cs.drop 1 else cs
    let name := cs.takeWhile isNameChar
    let least := (String.ofList name).utf8ByteSize + if indented then 1 else 0
    match cs.dropWhile isNameChar with
    | '\n' :: rest =>
      if name.isEmpty then none
      else (throughName name least (rest.length + 1) [] rest).map fun (written, rest) =>
        (if indented then unindented name written
          else String.ofList (written.take (written.length - (name.length + 1))), rest)
    | _ => none
  | _ => none

/-- The exponent behind a number, if it has one. Without digits it takes the sign that follows,
and the number has no value. -/
def splitExponent (cs : List Char) : List Char × List Char :=
  match cs with
  | e :: rest =>
    if e = 'e' || e = 'E' then
      let sign := (rest.take 1).takeWhile fun c => c = '+' || c = '-'
      let ds := (rest.drop sign.length).takeWhile Text.isDigit
      let back := if ds.isEmpty then (rest.drop sign.length).take 1 else ds
      (e :: sign ++ back, rest.drop (sign.length + back.length))
    else ([], cs)
  | [] => ([], [])

/-- A number without a base mark that starts with a digit. -/
def readDecimal (sign cs : List Char) : Token × List Char :=
  let front := cs.takeWhile Text.isDigit
  let rest := cs.dropWhile Text.isDigit
  let (back, rest) :=
    match rest with
    | '.' :: r => ('.' :: r.takeWhile Text.isDigit, r.dropWhile Text.isDigit)
    | _ => ([], rest)
  let (exponent, rest) := splitExponent rest
  let written := sign ++ front ++ back ++ exponent
  (if back.isEmpty && exponent.isEmpty then .whole written else .real written, rest)

/-- A number that starts with a digit. One with a leading zero is octal, or hexadecimal
behind an `x`, unless a fraction or an exponent follows. -/
def readNumber (sign cs : List Char) : Option (Token × List Char) :=
  match cs with
  | '0' :: x :: rest =>
    if x = 'x' || x = 'X' then
      let ds := rest.takeWhile (Text.isDigitIn 16)
      if ds.isEmpty then none
      else some (.whole (sign ++ '0' :: x :: ds), rest.drop ds.length)
    else
      match readDecimal sign cs with
      | (.whole written, rest) =>
        if (written.drop (sign.length + 2)).any fun c => c = '8' || c = '9' then none
        else some (.whole written, rest)
      | read => some read
  | _ => some (readDecimal sign cs)

/-- A fraction behind its point. It has no exponent. -/
def readFraction (cs : List Char) : Token × List Char :=
  let ds := cs.takeWhile Text.isDigit
  let rest := cs.dropWhile Text.isDigit
  let mark := (rest.take 1).filter fun c => c = 'e' || c = 'E'
  (.real ('.' :: ds ++ mark), rest.drop mark.length)

/-- A comment in slashes, the first of which is read. -/
def skipSlashes? : List Char → Option (List Char)
  | '/' :: rest => some (rest.dropWhile (· ≠ '\n'))
  | '*' :: rest => (Text.cut? ['*', '/'] rest).map Prod.snd
  | _ => none

/-- The meaning of single signs. -/
def signs : List (Char × Token) :=
  [('[', .openBracket), (']', .closeBracket), ('\x7b', .openBrace), ('\x7d', .closeBrace),
    (',', .comma), ('=', .assign), ('+', .stray), ('-', .stray), ('.', .stray)]

/-- The word that starts with a sign other than a blank, none if it only starts a comment,
and what is left. -/
def readToken (c : Char) (rest : List Char) : Option (Option Token × List Char) :=
  let digitNext := rest.head?.any Text.isDigit
  let token (r : Token × List Char) : Option Token × List Char := (some r.1, r.2)
  if startsWord c then
    let inWord (c : Char) : Bool := isNameChar c || c = '-' || c = '.'
    let w := String.ofList (c :: rest.takeWhile inWord)
    let t : Token :=
      if w = "true" then .flag true else if w = "false" then .flag false else .word w
    some (some t, rest.dropWhile inWord)
  else if Text.isDigit c then (readNumber [] (c :: rest)).map token
  else if c = '-' && digitNext then (readNumber ['-'] rest).map token
  else if c = '.' && digitNext then some (token (readFraction rest))
  else if c = '"' then
    (readQuoted (rest.length + 1) 0 [] rest).map fun (raw, rest) =>
      (some (quotedToken false raw), rest)
  else if c = '<' then (readLines rest).map fun (s, rest) => (some (.lines s), rest)
  else if c = '#' then some (none, rest.dropWhile (· ≠ '\n'))
  else if c = '/' then (skipSlashes? rest).map fun rest => (none, rest)
  else (signs.find? fun (sign, _) => sign = c).map fun (_, t) => (some t, rest)

/-- The words of a text; `taken` is read in reverse. -/
def tokens : (steps : Nat) → (taken : List Token) → List Char → Option (List Token)
  | 0, _, _ => none
  | _, taken, [] => some taken.reverse
  | steps + 1, taken, c :: rest =>
    if isBlank c then tokens steps taken rest
    else
      match readToken c rest with
      | some (some t, rest) => tokens steps (t :: taken) rest
      | some (none, rest) => tokens steps taken rest
      | none => none

/-- Characters that no text may hold: the one without a code, and one that stands for none. -/
def isRefused (c : Char) : Bool := c.toNat = 0 || c.toNat = 0xe123

/-- The words of a text. -/
def tokensOf? (text : String) : Option (List Token) :=
  let cs := text.toList
  if cs.any isRefused then none
  else
    let cs := Text.replaceAll ['\r', '\n'] ['\n'] cs.length cs
    tokens (cs.length + 1) [] cs

end HaloMesh.Config.Hcl
