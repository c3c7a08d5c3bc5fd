import HaloMesh.Decimal.Binary
import HaloMesh.Double
import HaloMesh.Text.Number

/-! The numbers a mesh computes with. Every numeric definition of the library is stated for
any type with these operations, so that the same definition runs on double precision
numbers and can be read over exact arithmetic. Comparisons give truth values, and a
comparison with an undefined number is false. -/

namespace HaloMesh

class Scalar (α : Type) extends Add α, Sub α, Mul α, Div α, Neg α where
  ofInt : Int → α
  ofScientific : Nat → Bool → Nat → α
  lt : α → α → Bool
  le : α → α → Bool
  /-- Numerical equality. -/
  same : α → α → Bool
  abs : α → α
  sqrt : α → α
  sin : α → α
  cos : α → α
  pi : α
  /-- A whole power of a number that is not negative. -/
  wholePower : α → Int → α
  /-- The undefined number, where the type has one. -/
  undefined : α
  isUndefined : α → Bool
  isInfinite : α → Bool
  /-- The nearest integer, a half going away from zero. -/
  round : α → Int
  /-- The nearest integer, a half going to the even neighbour. -/
  roundEven : α → Int
  /-- The integer part. -/
  truncate : α → Int
  /-- The text of a number in a message. -/
  text : α → String
  /-- The text of a number without an exponent. -/
  plainText : α → String
  /-- The text of a number in data exchange. -/
  dataText : α → String
  /-- The text of a number in a table, with four places and an exponent. -/
  tableText : α → String

namespace Scalar

variable {α : Type} [Scalar α]

instance (priority := low) instOfNatScalar (n : Nat) : OfNat α n := ⟨ofInt (n : Int)⟩

instance (priority := low) instOfScientificScalar : OfScientific α := ⟨ofScientific⟩

instance (priority := low) instInhabitedScalar : Inhabited α := ⟨ofInt 0⟩

/-- The square of a number. -/
def square (x : α) : α := x * x

/-- Minus one for a negative number and one for any other. -/
def sign (x : α) : α := if lt x 0 then -1 else 1

/-- The larger of two numbers. Infinity is larger than anything; else the result is undefined
if one of them is. -/
def maximum (a b : α) : α :=
  let isTop (x : α) : Bool := isInfinite x && lt 0 x
  if isTop a then a
  else if isTop b then b
  else if isUndefined a then a
  else if isUndefined b then b
  else if lt a b then b
  else a

/-- The largest absolute value of a list, zero for the empty one. -/
def maxAbs (xs : List α) : α := xs.foldl (fun m x => maximum m (abs x)) 0

/-- A natural power by repeated multiplication. -/
def power (x : α) : Nat → α
  | 0 => 1
  | n + 1 => power x n * x

/-- The remainder of `x` by `m` of least absolute value. -/
def remainder (x m : α) : α := x - ofInt (roundEven (x / m)) * m

end Scalar

/-- A whole number in double precision, read as a signed 64 bit word. A number outside
that range, or none at all, gives the least word. -/
def wholeOfDouble (x : Float) : Int :=
  match Decimal.parts x with
  | .finite negative m q _ =>
    let n : Nat := if 0 ≤ q then m * Nat.pow 2 q.toNat else m / Nat.pow 2 (-q).toNat
    let i : Int := if negative then -(n : Int) else n
    if Text.fitsWord i then i else -Text.wordEnd
  | .zero _ => 0
  | _ => -Text.wordEnd

/-- The nearest whole double precision number, a half going to the even neighbour. -/
def doubleRoundEven (x : Float) : Float :=
  let r := x.round
  if (r - x).abs == 0.5 && (r / 2).floor != r / 2 then r - (if x < 0 then -1 else 1) else r

instance : Scalar Float where
  ofInt n := Float.ofInt n
  ofScientific m s e := OfScientific.ofScientific m s e
  lt a b := decide (a < b)
  le a b := decide (a ≤ b)
  same a b := a == b
  abs := Float.abs
  sqrt := Float.sqrt
  sin := Double.sin
  cos := Double.cos
  pi := 3.141592653589793
  wholePower := Double.power
  undefined := 0.0 / 0.0
  isUndefined := Float.isNaN
  isInfinite := Float.isInf
  round x := wholeOfDouble x.round
  roundEven x := wholeOfDouble (doubleRoundEven x)
  truncate := wholeOfDouble
  text := Decimal.messageText
  plainText := Decimal.plainText
  dataText := Decimal.dataText
  tableText := Decimal.tableText 4

end HaloMesh
