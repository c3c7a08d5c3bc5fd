import HaloMesh.Toml.Key

/-! The words of a file of tables. Where a key is expected, and where a value, words are told
apart differently. Brackets and braces close in the order in which they were opened; a line
ends a value unless the innermost of them is a bracket. -/

namespace HaloMesh.Toml

inductive Token where
  | key (written : String)
  | tableKey (written : String)
  | elementKey (written : String)
  | openBracket | closeBracket
  | openDouble | closeDouble
  | openBrace | closeBrace
  | comma | equals
  | text (s : String)
  | flag (b : Bool)
  | infinite (negative : Bool)
  | undefined
  | whole (written : List Char)
  | real (written : List Char)
  | moment (m : Option Moment)
deriving DecidableEq, Repr

/-- The digits of a number in another base, its mark being read. -/
def readBased (mark : Char) (fits : Char → Bool) (cs : List Char) : Read Token :=
  let inside (c : Char) : Bool := fits c || c = '_'
  let ds := cs.takeWhile inside
  if ds.isEmpty then none else some (.whole ('0' :: mark :: ds), cs.dropWhile inside)

/-- What the loop over the signs of a number has seen. -/
structure Seen where
  taken : List Char
  point : Bool := false
  exponent : Bool := false
  digit : Bool := false

/-- The signs of a number: digits and underscores, one point with a digit on either side, and
exponents. -/
def readDigits : (steps : Nat) → Seen → List Char → Read Token
  | 0, _, _ => none
  | steps + 1, s, cs =>
    match cs with
    | '.' :: rest =>
      if s.point || !rest.head?.any Text.isDigit || !s.digit then none
      else readDigits steps { s with taken := '.' :: s.taken, point := true } rest
    | c :: rest =>
      if c = 'e' || c = 'E' then
        let sign := (rest.takeWhile fun c => c = '+' || c = '-').take 1
        readDigits steps { s with taken := sign ++ c :: s.taken, exponent := true }
          (rest.drop sign.length)
      else if Text.isDigit c then
        readDigits steps { s with taken := c :: s.taken, digit := true } rest
      else if c = '_' then readDigits steps { s with taken := c :: s.taken } rest
      else finish s cs
    | [] => finish s cs
where
  finish (s : Seen) (cs : List Char) : Read Token :=
    if !s.digit then none
    else
      let written := s.taken.reverse
      some (if s.point || s.exponent then .real written else .whole written, cs)

/-- A number that starts here. A letter behind a leading zero has to name a base. -/
def readNumber (cs : List Char) : Read Token :=
  let digits (sign rest : List Char) : Read Token :=
    readDigits (rest.length + 1) { taken := sign } rest
  match cs with
  | '0' :: 'x' :: rest => readBased 'x' (Text.isDigitIn 16) rest
  | '0' :: 'o' :: rest => readBased 'o' (Text.isDigitIn 8) rest
  | '0' :: 'b' :: rest => readBased 'b' (Text.isDigitIn 2) rest
  | '0' :: c :: _ => if c.isAlpha then none else digits [] cs
  | sign :: rest =>
    if sign = '+' || sign = '-' then
      match Text.after? "inf".toList rest, Text.after? "nan".toList rest with
      | some rest, _ => some (.infinite (sign = '-'), rest)
      | none, some rest => some (.undefined, rest)
      | none, none => digits [sign] rest
    else if Text.isDigit sign then digits [] cs
    else none
  | [] => none

/-- The words a value can be. -/
def valueWords : List (String × Token) :=
  [("true", .flag true), ("false", .flag false), ("inf", .infinite false), ("nan", .undefined)]

/-- A plain value that starts here. -/
def readPlain (cs : List Char) : Read Token :=
  let word := valueWords.findSome? fun (w, t) =>
    (Text.after? w.toList cs).map fun rest => (t, rest)
  let moment := (readMoment cs).map fun (m, rest) => (Token.moment m, rest)
  (word.or moment).or (readNumber cs)

/-- A comment is left out, its line end is not. -/
def skipComment (cs : List Char) : List Char := cs.dropWhile fun c => c ≠ '\n'

/-- The key of a table or of an element between its brackets, the first of which is read. -/
def readHeader (cs : List Char) : Read (List Token) :=
  let double : Bool := cs.head? = some '['
  let cs := if double then cs.drop 1 else cs
  let key := cs.takeWhile (· ≠ ']')
  if key.contains '[' then none
  else
    match double, cs.dropWhile (· ≠ ']') with
    | true, ']' :: ']' :: rest =>
      some ([.openDouble, .elementKey (String.ofList key), .closeDouble], rest)
    | false, ']' :: rest =>
      some ([.openBracket, .tableKey (String.ofList key), .closeBracket], rest)
    | _, _ => none

/-- What is open around a word. -/
inductive Frame where
  | bracket | brace
deriving DecidableEq, Repr

/-- Closes the innermost frame, which has to be the given one. -/
def close? (frame : Frame) : List Frame → Option (List Frame)
  | f :: frames => if f = frame then some frames else none
  | [] => none

/-- What was read of a text. -/
structure Progress where
  /-- Whether a value is expected. -/
  atValue : Bool
  /-- What is open, the innermost first. -/
  frames : List Frame
  /-- The words so far, the last first. -/
  taken : List Token

namespace Progress

def add (p : Progress) (t : Token) : Progress := { p with taken := t :: p.taken }

/-- Adds a word behind which a value is expected. -/
def value (p : Progress) (t : Token) : Progress := { p.add t with atValue := true }

/-- The innermost frame is a given one. -/
def inside (p : Progress) (frame : Frame) : Bool := p.frames.head? = some frame

/-- A brace that closes a table is followed by what follows a value. -/
def closeBrace? (p : Progress) : Option Progress :=
  (close? .brace p.frames).map fun frames => { p.value .closeBrace with frames }

/-- Reads on where a key or the opening of a table is expected. -/
def keyStep? (p : Progress) (c : Char) (rest : List Char) : Read Progress :=
  match c with
  | '\x7d' => p.closeBrace?.map fun p => (p, rest)
  | '[' => (readHeader rest).map fun (header, rest) =>
      ({ p with taken := header.reverse ++ p.taken }, rest)
  | '#' => some (p, skipComment rest)
  | '=' => some (p.value .equals, rest)
  | _ =>
    if isLineEnd c || isSpace c then some (p, rest)
    else (readKey (rest.length + 2) [] (c :: rest)).map fun (key, rest) =>
      (p.add (.key (String.ofList key)), rest)

/-- Reads on where a value is expected. -/
def valueStep? (p : Progress) (c : Char) (rest : List Char) : Read Progress :=
  let text (r : Read (List Char)) : Read Progress :=
    r.map fun (s, rest) => (p.add (.text (String.ofList s)), rest)
  match c with
  | '=' => some (p.add .equals, rest)
  | '[' => some ({ p.add .openBracket with frames := .bracket :: p.frames }, rest)
  | ']' => (close? .bracket p.frames).map fun frames =>
      ({ p.add .closeBracket with frames }, rest)
  | '\x7b' =>
    some ({ p.add .openBrace with frames := .brace :: p.frames, atValue := false }, rest)
  | '\x7d' => p.closeBrace?.map fun p => (p, rest)
  | '#' => some (p, skipComment rest)
  | '"' => text (readQuoted rest)
  | '\'' => text (readLiteral rest)
  | ',' => some ({ p.add .comma with atValue := !p.inside .brace }, rest)
  | _ =>
    if isLineEnd c then some ({ p with atValue := p.inside .bracket }, rest)
    else if isSpace c then some (p, rest)
    else (readPlain (c :: rest)).map fun (t, rest) => (p.add t, rest)

end Progress

/-- The words of a text. -/
def tokens : (steps : Nat) → Progress → List Char → Option (List Token)
  | 0, _, _ => none
  | _, p, [] => some p.taken.reverse
  | steps + 1, p, c :: rest =>
    match if p.atValue then p.valueStep? c rest else p.keyStep? c rest with
    | some (p, rest) => tokens steps p rest
    | none => none

/-- The words of a text. A mark of its byte order does not count. -/
def tokensOf? (text : String) : Option (List Token) :=
  let cs := (Text.after? [Char.ofNat 0xfeff] text.toList).getD text.toList
  tokens (cs.length + 1) ⟨false, [], []⟩ cs

end HaloMesh.Toml
