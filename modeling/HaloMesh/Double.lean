import HaloMesh.Decimal.Binary

/-! Functions of double precision numbers that are computed to the last places. -/

namespace HaloMesh.Double

/-! Whole powers by repeated squaring. Fractions and exponents are kept apart, so that only
the last step can overflow. -/

/-- Multiplies `a * 2 ^ e` by the power `n` of `x * 2 ^ d`. A far too large exponent ends
the work early. -/
def powerSteps (n : Nat) (a : Float) (e : Int) (x : Float) (d : Int) : Float × Int :=
  if n = 0 then (a, e)
  else if d < -4096 ∨ 4096 < d then (a, e + d)
  else
    let (a, e) := if n % 2 = 1 then (a * x, e + d) else (a, e)
    let y := x * x
    if y < 0.5 then powerSteps (n / 2) a e (y + y) (2 * d - 1)
    else powerSteps (n / 2) a e y (2 * d)
termination_by n

/-- The power `n` of a number that is not negative. The exponent counts as a double
precision number. -/
def power (x : Float) (n : Int) : Float :=
  if n = 0 || x == 1 then 1
  else if n = 1 || x.isNaN then x
  else if x == 0 then if n < 0 then 1.0 / 0.0 else 0
  else
    let size := (Float.ofInt n).abs
    if size ≥ 9223372036854775808 then
      if decide (x < 1) = decide (0 < n) then 0 else 1.0 / 0.0
    else
      let (fraction, d) := x.frExp
      let (a, e) := powerSteps size.toUInt64.toNat 1 0 fraction d
      if n < 0 then (1 / a).scaleB (-e) else a.scaleB e

/-! Sine and cosine. An angle is a whole number of quarter turns and a rest of at most an
eighth turn, on which a polynomial is exact to the last places. The rest of a small angle is
found with `π / 4` in three pieces; a large angle is multiplied by the binary digits of
`4 / π` that matter for it. -/

/-- An angle as quarter turns, counted from zero to three, and a rest. -/
structure Turned where
  quarters : Nat
  rest : Float

/-- The quotient `4 / π` times `2 ^ 1216`, rounded down. -/
def fourOverPi : Nat :=
  0x145f306dc9c882a53f84eafa3ea69bb81b6c52b3278872083fca2c757bd778ac36e48dc74849ba5c00c925dd413a32439fc3bd63962534e7dd1046bea5d768909d338e04d68befc827323ac7306a673e93908bf177bf250763ff12fffbc0b301fde5e2316b414da3eda6cfd9e4f96136e9e8c7ecd3cbfd45aea4f758fd7cbe2f67a0e73ef14a525d4d7f6bf623f1aba10ac06608df8f6d757

/-- Takes the quarter turns off an angle below `2 ^ 29`. -/
def turnedNear (x : Float) : Turned :=
  let n := ((x * 1.2732395447351628).toUInt64.toNat + 1) / 2
  let y := Float.ofNat (2 * n)
  ⟨n % 4,
    ((x - y * 7.85398125648498535156e-1) - y * 3.77489470793079817668e-8)
      - y * 2.69515142907905952645e-15⟩

/-- Takes the quarter turns off the large angle `m * 2 ^ q`. Of the product with `4 / π`
three bits count the eighth turns and the bits behind them are the rest. -/
def turnedFar (m : Nat) (q : Int) : Turned :=
  let window := fourOverPi / Nat.pow 2 (1027 - q).toNat % Nat.pow 2 192
  let product := window * m / Nat.pow 2 64 % Nat.pow 2 128
  let eighths := product / Nat.pow 2 125
  let high := product / Nat.pow 2 61 % Nat.pow 2 64
  let low := product % Nat.pow 2 64
  let zeros := 63 - high.log2
  let fraction :=
    (high * Nat.pow 2 (zeros + 1) % Nat.pow 2 64 + low / Nat.pow 2 (63 - zeros)) / Nat.pow 2 12
  let z := Float.ofBits (UInt64.ofNat (fraction + (1022 - zeros) * Nat.pow 2 52))
  ⟨(eighths + 1) / 2 % 4, (if eighths % 2 = 1 then z - 1 else z) * 0.7853981633974483⟩

/-- Takes the quarter turns off an angle that is not negative. -/
def turned (x : Float) : Turned :=
  match Decimal.parts x with
  | .finite _ m q _ => if x < 536870912 then turnedNear x else turnedFar m q
  | _ => ⟨0, x⟩

/-- The value of a polynomial, the highest coefficient first. -/
def horner (coefficients : List Float) (x : Float) : Float :=
  match coefficients with
  | [] => 0
  | c :: rest => rest.foldl (fun y c => y * x + c) c

/-- The sine of at most an eighth turn. -/
def sineOfRest (z : Float) : Float :=
  let zz := z * z
  z + z * zz * horner
    [1.58962301576546568060e-10, -2.50507477628578072866e-8, 2.75573136213857245213e-6,
      -1.98412698295895385996e-4, 8.33333333332211858878e-3, -1.66666666666666307295e-1] zz

/-- The cosine of at most an eighth turn. -/
def cosineOfRest (z : Float) : Float :=
  let zz := z * z
  1.0 - 0.5 * zz + zz * zz * horner
    [-1.13585365213876817300e-11, 2.08757008419747316778e-9, -2.75573141792967388112e-7,
      2.48015872888517045348e-5, -1.38888888888730564116e-3, 4.16666666666665929218e-2] zz

/-- The sine; an infinite angle has none. -/
def sin (x : Float) : Float :=
  if x == 0 || x.isNaN then x
  else if x.isInf then 0.0 / 0.0
  else
    let t := turned x.abs
    let y := if t.quarters % 2 = 0 then sineOfRest t.rest else cosineOfRest t.rest
    if decide (2 ≤ t.quarters) != decide (x < 0) then -y else y

/-- The cosine; an infinite angle has none. -/
def cos (x : Float) : Float :=
  if x.isNaN || x.isInf then 0.0 / 0.0
  else
    let t := turned x.abs
    let y := if t.quarters % 2 = 0 then cosineOfRest t.rest else sineOfRest t.rest
    if t.quarters = 1 || t.quarters = 2 then -y else y

end HaloMesh.Double
