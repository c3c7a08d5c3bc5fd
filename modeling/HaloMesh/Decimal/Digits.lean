/-! Decimal digits of binary floating point numbers. A positive number is `m * 2 ^ q`;
the shortest digits are the fewest that name a decimal inside the interval of reals that
round to it, and of those the nearest. Scientific digits of a given length come from
rounding the exact value, a tie going to the even digit. -/

namespace HaloMesh.Decimal

/-- A decimal number `0.d₁d₂… * 10 ^ point`, its first digit nonzero unless it is zero. -/
structure Digits where
  digits : List Nat
  point : Int
deriving DecidableEq, Repr

/-- The digits of a natural number, most significant first; none for zero. -/
def natDigits (n : Nat) : List Nat :=
  if n = 0 then [] else (Nat.toDigits 10 n).map fun c => c.toNat - 48

/-- Trailing zeros carry no value. -/
def dropTrailingZeros (digits : List Nat) : List Nat :=
  (digits.reverse.dropWhile (· = 0)).reverse

/-- The decimal `n * 10 ^ scale` in digit form. -/
def ofScaled (n : Nat) (scale : Int) : Digits :=
  let ds := natDigits n
  ⟨dropTrailingZeros ds, if n = 0 then 0 else ds.length + scale⟩

/-- A number as a quotient of natural numbers. -/
structure Ratio where
  num : Nat
  den : Nat
deriving DecidableEq, Repr

namespace Ratio

def scale (r : Ratio) (twos : Int) : Ratio :=
  if 0 ≤ twos then ⟨r.num * Nat.pow 2 twos.toNat, r.den⟩
  else ⟨r.num, r.den * Nat.pow 2 (-twos).toNat⟩

/-- The quotient in units of `10 ^ e`. -/
def inUnits (r : Ratio) (e : Int) : Ratio :=
  if 0 ≤ e then ⟨r.num, r.den * Nat.pow 10 e.toNat⟩
  else ⟨r.num * Nat.pow 10 (-e).toNat, r.den⟩

def lt (a b : Ratio) : Bool := decide (a.num * b.den < b.num * a.den)

def le (a b : Ratio) : Bool := decide (a.num * b.den ≤ b.num * a.den)

/-- Nearest natural number, a half going to the even neighbour. -/
def nearest (r : Ratio) : Nat :=
  let q := r.num / r.den
  let twice := 2 * (r.num % r.den)
  if twice < r.den then q
  else if r.den < twice then q + 1
  else if q % 2 = 0 then q else q + 1

end Ratio

/-- A lower bound of the decimal exponent of `r`, at most a few units below it. -/
def exponentBelow (r : Ratio) : Int :=
  let bits : Int := (r.num.log2 : Int) - (r.den.log2 : Int)
  Int.fdiv (bits * 30103) 100000 - 1

/-- The decimal exponent `e` with `10 ^ e ≤ r < 10 ^ (e + 1)`, found by stepping up from
a lower bound. -/
def exponentFrom (r : Ratio) : (steps : Nat) → (e : Int) → Int
  | 0, e => e
  | steps + 1, e =>
    if Ratio.le ⟨10, 1⟩ (r.inUnits e) then exponentFrom r steps (e + 1) else e

def exponent (r : Ratio) : Int := exponentFrom r 8 (exponentBelow r)

/-- The reals that round to a binary number: its lower and upper end and whether the
ends belong to it. -/
structure Interval where
  low : Ratio
  high : Ratio
  closed : Bool

def Interval.contains (i : Interval) (r : Ratio) : Bool :=
  if i.closed then i.low.le r && r.le i.high else i.low.lt r && r.lt i.high

/-- The interval around `m * 2 ^ q`. Below a power of two the spacing halves, except
at the smallest exponent. -/
def roundingInterval (m : Nat) (q : Int) (halvedBelow : Bool) : Interval :=
  let at' (n : Nat) (shift : Int) : Ratio := Ratio.scale ⟨n, 1⟩ (q - shift)
  { low := if halvedBelow then at' (4 * m - 1) 2 else at' (2 * m - 1) 1
    high := at' (2 * m + 1) 1
    closed := m % 2 = 0 }

/-- The decimal with `count` digits nearest to `value` that lies in the interval. -/
def candidate? (value : Ratio) (i : Interval) (e : Int) (count : Nat) : Option Digits :=
  let unit : Int := e - count + 1
  let scaled := value.inUnits unit
  let below := scaled.num / scaled.den
  let inside (n : Nat) : Bool :=
    i.contains (if 0 ≤ unit then ⟨n * Nat.pow 10 unit.toNat, 1⟩ else ⟨n, Nat.pow 10 (-unit).toNat⟩)
  let near := scaled.nearest
  let far := if near = below then below + 1 else below
  if inside near then some (ofScaled near unit)
  else if inside far then some (ofScaled far unit)
  else none

/-- The fewest digits that read back as `m * 2 ^ q`, for a positive `m`. -/
def shortest (m : Nat) (q : Int) (halvedBelow : Bool) : Digits :=
  let value := Ratio.scale ⟨m, 1⟩ q
  let i := roundingInterval m q halvedBelow
  let e := exponent value
  ((List.range 18).findSome? fun n => candidate? value i e (n + 1)).getD
    (ofScaled (value.inUnits (e - 17)).nearest (e - 17))

/-- Exactly `count` significant digits of `m * 2 ^ q`, trailing zeros kept. -/
def rounded (m : Nat) (q : Int) (count : Nat) : List Nat × Int :=
  let value := Ratio.scale ⟨m, 1⟩ q
  let e := exponent value
  let n := (value.inUnits (e - count + 1)).nearest
  let ds := natDigits n
  (ds.take count, if ds.length > count then e + 1 else e)

end HaloMesh.Decimal
