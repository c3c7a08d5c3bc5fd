import HaloMesh.Toml.Quoted

/-! Keys with dots. Each part stands bare or in quotes, with blanks around it. -/

namespace HaloMesh.Toml

/-- The signs of a key without quotes. -/
def isBareChar (c : Char) : Bool := c.isAlphanum || c = '_' || c = '-'

/-- A key as it is written, its quotes kept and blanks after it left out; `taken` is read in
reverse. -/
def readKey : (steps : Nat) → (taken : List Char) → List Char →
    Option (List Char × List Char)
  | 0, _, _ => none
  | _, taken, [] => some (taken.reverse, [])
  | steps + 1, taken, c :: rest =>
    if c = '=' then some (taken.reverse, c :: rest)
    else if c = '"' then do
      let (s, rest) ← quotedUpTo? ['"'] true (rest.length + 1) [] rest
      readKey steps ('"' :: s.reverse ++ '"' :: taken) rest
    else if c = '\'' then do
      let (s, rest) ← Text.cut? ['\''] rest
      readKey steps ('\'' :: s.reverse ++ '\'' :: taken) rest
    else if isSpace c then
      match rest.dropWhile isSpace with
      | '.' :: left =>
        let blanks := left.takeWhile isSpace
        readKey steps (blanks.reverse ++ '.' :: taken) (left.dropWhile isSpace)
      | left => some (taken.reverse, left)
    else if c = '.' || isBareChar c then readKey steps (c :: taken) rest
    else none

/-- The parts of a key; `taken` is read in reverse. Behind a dot a blank may stand, but no
tabulator. -/
def keyParts : (steps : Nat) → (taken : List String) → List Char → Option (List String)
  | 0, _, _ => none
  | steps + 1, taken, cs =>
    match cs.dropWhile isSpace with
    | [] => if taken.isEmpty then none else some taken.reverse
    | c :: rest =>
      if isBareChar c then
        let part := (c :: rest).takeWhile isBareChar
        let next := ((c :: rest).dropWhile isBareChar).dropWhile isSpace
        if next.head?.all (· = '.') then keyParts steps (String.ofList part :: taken) next
        else none
      else if c = '\'' || c = '"' then do
        let (part, rest) ← Text.cut? [c] rest
        keyParts steps (String.ofList part :: taken) rest
      else if c = '.' then
        if rest.head?.any fun c => isBareChar c || c = '\'' || c = '"' || c = ' ' then
          keyParts steps taken rest
        else none
      else none

/-- The parts of a key as it is written, none if it is malformed or empty. -/
def splitKey? (written : String) : Option (List String) :=
  let cs := written.toList
  keyParts (cs.length + 1) [] cs

end HaloMesh.Toml
