/-! Finding a mark in a text, and the characters that cannot be written. -/

namespace HaloMesh.Text

/-- What is left behind a mark at the start. -/
def after? : (mark : List Char) → List Char → Option (List Char)
  | [], cs => some cs
  | m :: mark, c :: cs => if m = c then after? mark cs else none
  | _, [] => none

/-- A text around the first place of a mark. -/
def cut? (mark : List Char) : List Char → Option (List Char × List Char)
  | [] => (after? mark []).map fun rest => ([], rest)
  | c :: cs =>
    match after? mark (c :: cs) with
    | some rest => some ([], rest)
    | none => (cut? mark cs).map fun (front, rest) => (c :: front, rest)

/-- A text around the last place of a mark. -/
def cutLast? (mark cs : List Char) : Option (List Char × List Char) :=
  (cut? mark.reverse cs.reverse).map fun (back, front) => (front.reverse, back.reverse)

/-- The parts of a text between the places of a character. -/
def parts (mark : Char) : List Char → List (List Char)
  | [] => [[]]
  | c :: cs =>
    if c = mark then [] :: parts mark cs
    else
      match parts mark cs with
      | [] => [[c]]
      | first :: rest => (c :: first) :: rest

/-- Replaces every place of a mark, from the left. -/
def replaceAll (mark new : List Char) : (steps : Nat) → List Char → List Char
  | 0, cs => cs
  | steps + 1, cs =>
    match cut? mark cs with
    | none => cs
    | some (front, rest) => front ++ new ++ replaceAll mark new steps rest

/-- The character with a code, or a sign for an unknown one. -/
def ofCode (n : Nat) : Char := if n.isValidChar then Char.ofNat n else Char.ofNat 0xfffd

end HaloMesh.Text
