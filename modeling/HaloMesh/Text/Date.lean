import HaloMesh.Text.Number

/-! Dates and times as they are written in data files. -/

namespace HaloMesh.Text

/-- One or two digits within a range, and what is left. -/
def datePart? (low high : Nat) (cs : List Char) : Option (Nat × List Char) :=
  let ds := (cs.take 2).takeWhile isDigit
  match digitsValue? 10 ds with
  | some n => if low ≤ n ∧ n ≤ high then some (n, cs.drop ds.length) else none
  | none => none

/-- What is left behind a sign. -/
def afterSign? (sign : Char) : List Char → Option (List Char)
  | c :: rest => if c = sign then some rest else none
  | [] => none

def isLeapYear (year : Nat) : Bool := year % 4 = 0 && (year % 100 ≠ 0 || year % 400 = 0)

def daysIn (year month : Nat) : Nat :=
  if month = 2 then if isLeapYear year then 29 else 28
  else if month = 4 ∨ month = 6 ∨ month = 9 ∨ month = 11 then 30
  else 31

/-- What is left behind a year of four digits, a month and a day. -/
def afterDay? (cs : List Char) : Option (List Char) := do
  if (cs.takeWhile isDigit).length ≠ 4 then none
  let year ← digitsValue? 10 (cs.take 4)
  let (month, cs) ← datePart? 1 12 (← afterSign? '-' (cs.drop 4))
  let (_, cs) ← datePart? 1 (daysIn year month) (← afterSign? '-' cs)
  return cs

/-- What is left behind a fraction of a second, which may be left out. -/
def afterFraction (cs : List Char) : List Char :=
  match cs with
  | c :: d :: rest => if (c = '.' || c = ',') && isDigit d then rest.dropWhile isDigit else cs
  | _ => cs

/-- What is left behind an hour, a minute and a second. -/
def afterTime? (cs : List Char) : Option (List Char) := do
  let (_, cs) ← datePart? 0 23 cs
  let (_, cs) ← datePart? 0 59 (← afterSign? ':' cs)
  let (_, cs) ← datePart? 0 59 (← afterSign? ':' cs)
  return afterFraction cs

/-- A time zone: a letter, or a distance in hours and minutes. -/
def isZone : List Char → Bool
  | ['Z'] => true
  | [sign, h, i, ':', m, n] =>
    (sign = '+' || sign = '-') && [h, i, m, n].all isDigit &&
      ((digitsValue? 10 [h, i]).any fun n => decide (n ≤ 24)) &&
      ((digitsValue? 10 [m, n]).any fun n => decide (n ≤ 60))
  | _ => false

/-- Whether a text is a day, or a day with a time. -/
def isDate (s : String) : Bool :=
  match afterDay? s.toList with
  | none => false
  | some [] => true
  | some (c :: rest) =>
    if c = 'T' || c = 't' then (afterTime? rest).any isZone
    else c = ' ' && (afterTime? (rest.dropWhile (· = ' '))).any List.isEmpty

end HaloMesh.Text
