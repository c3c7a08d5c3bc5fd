/-! Numbers as they are written in options, data files and on the command line: whole numbers
with an optional base mark, and fractions with an optional exponent. Underscores may divide
digits. -/

namespace HaloMesh.Text

/-- Why a text is no number. -/
inductive NumberFault where
  | malformed
  | outOfRange
deriving DecidableEq, Repr

/-- The value of a digit in bases up to thirty-six. -/
def digitValue? (c : Char) : Option Nat :=
  if '0' ≤ c ∧ c ≤ '9' then some (c.toNat - 48)
  else if 'a' ≤ c ∧ c ≤ 'z' then some (c.toNat - 87)
  else if 'A' ≤ c ∧ c ≤ 'Z' then some (c.toNat - 55)
  else none

def isDigitIn (base : Nat) (c : Char) : Bool := (digitValue? c).any fun d => decide (d < base)

def isDigit (c : Char) : Bool := decide ('0' ≤ c) && decide (c ≤ '9')

/-- The number with the given digits, none without digits or with a foreign one. -/
def digitsValue? (base : Nat) (cs : List Char) : Option Nat :=
  if cs.isEmpty then none
  else
    cs.foldlM (fun n c => do
      let d ← digitValue? c
      if d < base then some (n * base + d) else none) 0

/-- Splits off a sign; true for a minus. -/
def splitSign : List Char → Bool × List Char
  | '-' :: cs => (true, cs)
  | '+' :: cs => (false, cs)
  | cs => (false, cs)

/-- The base a letter after a zero stands for. -/
def baseMark? (c : Char) : Option Nat :=
  match c.toLower with
  | 'x' => some 16
  | 'b' => some 2
  | 'o' => some 8
  | _ => none

/-- Splits off a base mark: `0x`, `0b` or `0o` with something behind it, or a leading zero for
octal. -/
def splitBase : List Char → Nat × List Char
  | '0' :: c :: d :: cs =>
    match baseMark? c with
    | some base => (base, d :: cs)
    | none => (8, c :: d :: cs)
  | '0' :: cs => (8, cs)
  | cs => (10, cs)

/-- What stands before a place in a number. -/
inductive Neighbour where
  | digit | underscore | other
deriving DecidableEq

/-- Whether every underscore has a digit on either side. -/
def underscoresBetween (hexadecimal : Bool) : Neighbour → List Char → Bool
  | last, [] => last ≠ .underscore
  | last, c :: cs =>
    if isDigitIn (if hexadecimal then 16 else 10) c then underscoresBetween hexadecimal .digit cs
    else if c = '_' then last = .digit && underscoresBetween hexadecimal .underscore cs
    else last ≠ .underscore && underscoresBetween hexadecimal .other cs

/-- Whether the underscores of a number divide its digits. A base mark counts as a digit. -/
def underscoresFit (cs : List Char) : Bool :=
  let cs := (splitSign cs).2
  match cs with
  | '0' :: c :: rest =>
    match baseMark? c with
    | some base => underscoresBetween (base = 16) .digit rest
    | none => underscoresBetween false .other cs
  | _ => underscoresBetween false .other cs

/-- The first whole number too large for a signed word of 64 bits. -/
def wordEnd : Int := (Nat.pow 2 63 : Nat)

/-- The range of signed 64 bit words. -/
def fitsWord (n : Int) : Bool := decide (-wordEnd ≤ n) && decide (n < wordEnd)

/-- Adds digits from the left, as long as the number fits a word of 64 bits. -/
def accumulate (base : Nat) (divided : Bool) : List Char → Nat → Except NumberFault Nat
  | [], n => .ok n
  | c :: cs, n =>
    if divided && c = '_' then accumulate base divided cs n
    else
      match digitValue? c with
      | none => .error .malformed
      | some d =>
        if base ≤ d then .error .malformed
        else if n * base + d < Nat.pow 2 64 then accumulate base divided cs (n * base + d)
        else .error .outOfRange

/-- A whole number without a sign and with an optional base mark, as a word of 64 bits. -/
def unsigned (cs : List Char) : Except NumberFault Nat :=
  if cs.isEmpty then .error .malformed
  else
    let (base, digits) := splitBase cs
    match accumulate base true digits 0 with
    | .error f => .error f
    | .ok n => if cs.contains '_' && !underscoresFit cs then .error .malformed else .ok n

/-- A number with its sign, within the range of signed words. -/
def withSign (negative : Bool) : Except NumberFault Nat → Except NumberFault Int
  | .error f => .error f
  | .ok n =>
    let i : Int := if negative then -(n : Int) else n
    if fitsWord i then .ok i else .error .outOfRange

/-- A whole number with an optional sign and base mark. -/
def whole (cs : List Char) : Except NumberFault Int :=
  let (negative, rest) := splitSign cs
  withSign negative (unsigned rest)

/-- A whole number with an optional sign, in a base of its own and without underscores. -/
def wholeIn (base : Nat) (cs : List Char) : Except NumberFault Int :=
  let (negative, rest) := splitSign cs
  withSign negative (if rest.isEmpty then .error .malformed else accumulate base false rest 0)

def wholeNumber? (s : String) : Option Int := (whole s.toList).toOption

/-- A decimal number, as numeric literals give it. -/
structure Fraction where
  negative : Bool
  mantissa : Nat
  exponent : Int
deriving DecidableEq, Repr

namespace Fraction

/-- The number of digits before the point, negative for zeros after it. -/
def magnitude (f : Fraction) : Int :=
  if f.mantissa = 0 then 0 else (Nat.toDigits 10 f.mantissa).length + f.exponent

/-- A number so small that it rounds to zero is zero. -/
def settled (f : Fraction) : Fraction :=
  if f.mantissa = 0 ∨ f.magnitude < -400 then ⟨f.negative, 0, 0⟩ else f

/-- The nearest double precision number. A magnitude out of reach is settled without
computing the power. -/
def toDouble (f : Fraction) : Float :=
  let x : Float :=
    if f.mantissa = 0 ∨ f.magnitude < -400 then 0
    else if 400 < f.magnitude then 1 / 0
    else Float.ofScientific f.mantissa (decide (f.exponent < 0)) f.exponent.natAbs
  if f.negative then -x else x

/-- The number `n * 2 ^ e`. -/
def ofBinary (negative : Bool) (n : Nat) (e : Int) : Fraction :=
  if 0 ≤ e then ⟨negative, n * Nat.pow 2 e.toNat, 0⟩
  else ⟨negative, n * Nat.pow 5 (-e).toNat, e⟩

end Fraction

/-- What a text can mean where a number is wanted. -/
inductive Number where
  | finite (f : Fraction)
  | infinite (negative : Bool)
  | undefined
deriving DecidableEq, Repr

def Number.toDouble : Number → Float
  | .finite f => f.toDouble
  | .infinite negative => if negative then -1 / 0 else 1 / 0
  | .undefined => 0 / 0

/-- The words for numbers that have no digits. -/
def numberWord? (cs : List Char) : Option Number :=
  let plain := String.ofList (cs.map Char.toLower)
  let (negative, rest) := splitSign cs
  if String.ofList (rest.map Char.toLower) ∈ ["inf", "infinity"] then some (.infinite negative)
  else if plain = "nan" then some .undefined
  else none

/-- The digits of an exponent. From ten thousand on no further ones count. -/
def exponentValue (ds : List Char) : Nat :=
  ds.foldl (fun e c => if e < 10000 then e * 10 + (digitValue? c).getD 0 else e) 0

/-- The exponent behind the digits of a number: none without a mark, and nothing may follow
it. -/
def exponent? (mark : Char) : List Char → Option (Option Int)
  | [] => some none
  | c :: rest =>
    let (minus, ds) := splitSign rest
    let e : Int := exponentValue (ds.filter (· ≠ '_'))
    let fits := c.toLower = mark && (ds.head?.any isDigit) && ds.all fun c => isDigit c || c = '_'
    if fits then some (some (if minus then -e else e)) else none

/-- Digits with at most one point among them: the number without the point, and how many
digits stand behind it. -/
def pointed? (base : Nat) (cs : List Char) : Option (Nat × Nat) :=
  let front := cs.takeWhile (· ≠ '.')
  let back := (cs.dropWhile (· ≠ '.')).drop 1
  (digitsValue? base (front ++ back)).map fun n => (n, back.length)

/-- Reads `12.5e-3` and the like, and `0x1.8p3` with a binary exponent. -/
def digits? (s : List Char) : Option Fraction := do
  let (negative, cs) := splitSign s
  let (base, cs) :=
    match cs with
    | '0' :: x :: d :: rest => if x.toLower = 'x' then (16, d :: rest) else (10, cs)
    | _ => (10, cs)
  let inside (c : Char) : Bool := isDigitIn base c || c = '_' || c = '.'
  let (n, places) ← pointed? base ((cs.takeWhile inside).filter (· ≠ '_'))
  let e ← exponent? (if base = 16 then 'p' else 'e') (cs.dropWhile inside)
  if s.contains '_' && !underscoresFit s then none
  if base = 16 then e.map fun e => Fraction.ofBinary negative n (e - 4 * (places : Int))
  else some ⟨negative, n, e.getD 0 - (places : Int)⟩

/-- A number in any of its forms. One that is too large for double precision is out of
range. -/
def number (s : String) : Except NumberFault Number :=
  match numberWord? s.toList, digits? s.toList with
  | some n, _ => .ok n
  | none, some f => if f.toDouble.isInf then .error .outOfRange else .ok (.finite f.settled)
  | none, none => .error .malformed

def number? (s : String) : Option Number := (number s).toOption

/-- Whether a text is a decimal number: digits, a point with digits on a side, and an
exponent. -/
def isDecimal (s : String) : Bool :=
  let cs := (splitSign s.toList).2
  let front := cs.takeWhile isDigit
  let rest := cs.dropWhile isDigit
  let (back, rest) :=
    match rest with
    | '.' :: r => (r.takeWhile isDigit, r.dropWhile isDigit)
    | r => ([], r)
  let exponent :=
    match rest with
    | [] => true
    | c :: r =>
      let ds := (splitSign r).2
      c.toLower = 'e' && !ds.isEmpty && ds.all isDigit
  !(front ++ back).isEmpty && exponent

end HaloMesh.Text
