import HaloMesh.Decimal.Digits

/-! Texts of binary numbers: the short general form used in messages, the fixed scientific
form used in tables, and the plain positional form of data files. -/

namespace HaloMesh.Decimal

/-- A binary number taken apart: `m * 2 ^ q` with its sign, and whether the spacing of the
numbers below it is half of that above. -/
inductive Parts where
  | nan
  | infinite (negative : Bool)
  | zero (negative : Bool)
  | finite (negative : Bool) (m : Nat) (q : Int) (halvedBelow : Bool)

def parts (x : Float) : Parts :=
  let bits := x.toBits.toNat
  let negative := decide (bits / Nat.pow 2 63 = 1)
  let e : Nat := bits / Nat.pow 2 52 % Nat.pow 2 11
  let f : Nat := bits % Nat.pow 2 52
  if e = 2047 then if f = 0 then .infinite negative else .nan
  else if e = 0 then if f = 0 then .zero negative else .finite negative f (-1074) false
  else .finite negative (Nat.pow 2 52 + f) ((e : Int) - 1075) (decide (f = 0) && decide (1 < e))

/-- A single precision number taken apart. -/
def singleParts (x : Float32) : Parts :=
  let bits := x.toBits.toNat
  let negative := decide (bits / Nat.pow 2 31 = 1)
  let e : Nat := bits / Nat.pow 2 23 % Nat.pow 2 8
  let f : Nat := bits % Nat.pow 2 23
  if e = 255 then if f = 0 then .infinite negative else .nan
  else if e = 0 then if f = 0 then .zero negative else .finite negative f (-149) false
  else .finite negative (Nat.pow 2 23 + f) ((e : Int) - 150) (decide (f = 0) && decide (1 < e))

def digitText (ds : List Nat) : String :=
  String.ofList (ds.map fun d => Char.ofNat (48 + d))

def zeros (n : Nat) : String := String.ofList (List.replicate n '0')

/-- An exponent has a sign and at least two digits. -/
def exponentText (e : Int) : String :=
  let n := e.natAbs
  (if e < 0 then "e-" else "e+") ++ (if n < 10 then "0" else "") ++ toString n

/-- One digit, a point if more follow, and the rest. -/
def mantissaText (ds : List Nat) : String :=
  let rest := ds.drop 1
  digitText (ds.take 1) ++ (if rest.isEmpty then "" else "." ++ digitText rest)

def scientific (ds : List Nat) (e : Int) : String := mantissaText ds ++ exponentText e

/-- Digits around the point, zeros filling the places without a digit. -/
def positional (d : Digits) : String :=
  if d.point ≤ 0 then "0." ++ zeros (-d.point).toNat ++ digitText d.digits
  else
    let n := d.point.toNat
    if d.digits.length ≤ n then digitText d.digits ++ zeros (n - d.digits.length)
    else digitText (d.digits.take n) ++ "." ++ digitText (d.digits.drop n)

def signed (negative : Bool) (s : String) : String := if negative then "-" ++ s else s

/-- The fewest digits that read back, with an exponent below `10 ^ -4` and from a million
on. -/
def general : Parts → String
  | .nan => "NaN"
  | .infinite negative => if negative then "-Inf" else "+Inf"
  | .zero negative => signed negative "0"
  | .finite negative m q halved =>
    let d := shortest m q halved
    let e := d.point - 1
    signed negative (if e < -4 || 6 ≤ e then scientific d.digits e else positional d)

/-- A number in a message. -/
def messageText (x : Float) : String := general (parts x)

/-- A number where text was wanted keeps the digits of single precision. -/
def singleText (x : Float) : String := general (singleParts x.toFloat32)

/-- Every digit in its place, without an exponent. -/
def plainText (x : Float) : String :=
  match parts x with
  | .finite negative m q halved => signed negative (positional (shortest m q halved))
  | p => general p

/-- A number in data exchange has an exponent below `10 ^ -6` and from `10 ^ 21` on, written
without a zero in front. -/
def dataText (x : Float) : String :=
  match parts x with
  | .finite negative m q halved =>
    let d := shortest m q halved
    let e := d.point - 1
    let exponent := if -10 < e ∧ e < 0 then s!"e{e}" else exponentText e
    signed negative
      (if e < -6 || 21 ≤ e then mantissaText d.digits ++ exponent else positional d)
  | p => general p

/-- A number in a table has a fixed count of digits behind the point and an exponent. -/
def tableText (places : Nat) (x : Float) : String :=
  match parts x with
  | .nan => "NaN"
  | .infinite negative => if negative then "-Inf" else "+Inf"
  | .zero negative => signed negative (scientific (List.replicate (places + 1) 0) 0)
  | .finite negative m q _ =>
    let (ds, e) := rounded m q (places + 1)
    signed negative (scientific ds e)

end HaloMesh.Decimal
