import HaloMesh.Text.Number
import HaloMesh.Text.Search
import HaloMesh.Toml.Moment

/-! Texts in quotes. Between double quotes a backslash escapes, between single ones nothing has
a meaning; three quotes in a row enclose several lines. -/

namespace HaloMesh.Toml

def isSpace (c : Char) : Bool := c = ' ' || c = '\t'

def isLineEnd (c : Char) : Bool := c = '\r' || c = '\n'

/-- A character given by a number of hexadecimal digits. -/
def codeChar? (count : Nat) (cs : List Char) : Read Char :=
  if (cs.take count).length < count then none
  else (Text.digitsValue? 16 (cs.take count)).map fun n => (Text.ofCode n, cs.drop count)

/-- What a backslash and the signs behind it stand for: nothing if they are blanks. -/
def escaped? : List Char → Read (List Char)
  | '"' :: rest => some (['"'], rest)
  | 'n' :: rest => some (['\n'], rest)
  | 'b' :: rest => some ([Char.ofNat 8], rest)
  | 'f' :: rest => some ([Char.ofNat 12], rest)
  | '/' :: rest => some (['/'], rest)
  | 't' :: rest => some (['\t'], rest)
  | 'r' :: rest => some (['\r'], rest)
  | '\\' :: rest => some (['\\'], rest)
  | 'u' :: rest => (codeChar? 4 rest).map fun (c, rest) => ([c], rest)
  | 'U' :: rest => (codeChar? 8 rest).map fun (c, rest) => ([c], rest)
  | c :: rest =>
    let isGap (c : Char) : Bool := isSpace c || isLineEnd c
    if isGap c then some ([], rest.dropWhile isGap) else none
  | [] => none

/-- The text up to a closing mark; `taken` is read in reverse. -/
def quotedUpTo? (mark : List Char) (lines : Bool) :
    (steps : Nat) → (taken : List Char) → List Char → Option (List Char × List Char)
  | 0, _, _ => none
  | steps + 1, taken, cs =>
    match Text.after? mark cs, cs with
    | some rest, _ => some (taken.reverse, rest)
    | none, [] => none
    | none, '\\' :: rest => do
      let (e, rest) ← escaped? rest
      quotedUpTo? mark lines steps (e.reverse ++ taken) rest
    | none, c :: rest =>
      if c.toNat < 32 && c ≠ '\t' && !(lines && isLineEnd c) then none
      else quotedUpTo? mark lines steps (c :: taken) rest

/-- The line end that may follow an opening mark of three quotes does not count. -/
def skipFirstEnd : List Char → List Char
  | '\r' :: '\n' :: rest => rest
  | '\n' :: rest => rest
  | cs => cs

/-- A text in double quotes, the first of which is read. -/
def readQuoted (cs : List Char) : Read (List Char) :=
  match cs with
  | '"' :: '"' :: rest =>
    quotedUpTo? ['"', '"', '"'] true (cs.length + 1) [] (skipFirstEnd rest)
  | _ => quotedUpTo? ['"'] false (cs.length + 1) [] cs

/-- A text in single quotes, the first of which is read. -/
def readLiteral (cs : List Char) : Read (List Char) :=
  match cs with
  | '\'' :: '\'' :: rest => Text.cut? ['\'', '\'', '\''] (skipFirstEnd rest)
  | _ => Text.cut? ['\''] cs

end HaloMesh.Toml
