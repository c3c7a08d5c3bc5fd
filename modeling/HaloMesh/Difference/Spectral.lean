import HaloMesh.Error
import HaloMesh.Fourier.Fast

/-! Periodic lines of values as sums of modes. Mode `k` of a line of `n` points turns by
`2πk/n` from point to point; a real line is fixed by its modes up to `n/2`. Derivatives
and shifts multiply each mode by a factor. For an even number of points the highest mode
has no partner, so it has no odd derivative and only its cosine survives a shift. -/

namespace HaloMesh

/-- Ways between the lines of a number of points and their modes. The way back multiplies
by the number of points. -/
structure Modes (α : Type) where
  points : Nat
  coefficients : Array α → List (Complex α)
  sequence : List (Complex α) → Array α

namespace Modes

variable {α : Type} [Scalar α]

open Scalar

def angle (n k : Nat) : α := 2 * pi * ofInt k / ofInt n

/-- The fast transform. A line needs at least one point. -/
def ofLength (n : Nat) : Outcome (Modes α) :=
  if n = 0 then Outcome.outOfRange
  else
    let stages := Fourier.Stage.chain n 1 (Fourier.factors n)
    .ok
      { points := n
        coefficients := Fourier.analyse n stages
        sequence := Fourier.synthesise n stages }

/-- The turn by `2πkj/n`. -/
def turn (n k j : Nat) : Complex α :=
  let a := angle n (k * j % n)
  ⟨cos a, sin a⟩

/-- The amplitude of mode `k`: the sum of the values turned back by its angle. -/
def amplitude (n : Nat) (line : Array α) (k : Nat) : Complex α :=
  (List.range n).foldl (fun s j => s + .ofScalar (line.getD j 0) * (turn n k j).conj) ⟨0, 0⟩

/-- Whether mode `k` is its own conjugate: the mean, and the highest mode of an even
number of points. -/
def isReal (n k : Nat) : Bool := decide (k = 0) || decide (2 * k = n)

/-- The value at point `j` of the line with the given modes, times the number of points.
A mode with another one as its conjugate counts twice. -/
def value (n : Nat) (modes : List (Complex α)) (j : Nat) : α :=
  modes.zipIdx.foldl (fun s (z, k) =>
    let w := turn n k j
    if isReal n k then s + z.re * w.re else s + 2 * (z * w).re) 0

/-- The transform written out as sums over all points and modes. In exact arithmetic the
fast one is the same. -/
def direct (n : Nat) : Modes α where
  points := n
  coefficients line := (List.range (n / 2 + 1)).map (amplitude n line)
  sequence modes := ((List.range n).map (value n modes)).toArray

/-- The imaginary unit. -/
def unit : Complex α := ⟨0, 1⟩

/-- The factor `(i κ) ^ order / n` of mode `k`, with `κ = 2πk/n`. A negative order counts as
a multiple of four, and none of these leaves out the highest mode. -/
def derivativeFactor (n k : Nat) (order : Int) : Complex α :=
  let size : Complex α := .ofScalar (wholePower (angle n k) order / ofInt n)
  match order.tmod 4 with
  | 1 => size * unit
  | 2 => size * .ofScalar (-1)
  | 3 => size * ⟨0, -1⟩
  | _ => size

/-- Multiplies a mode by its factor; an odd derivative has no highest mode. -/
def derivativeMode (n k : Nat) (order : Int) (z : Complex α) : Complex α :=
  if order.tmod 2 = 1 && decide (2 * k = n) then ⟨0, 0⟩ else z * derivativeFactor n k order

/-- The derivative of a line in index units. -/
def derivative (t : Modes α) (line : Array α) (order : Int) : Array α :=
  t.sequence ((t.coefficients line).zipIdx.map fun (z, k) =>
    derivativeMode t.points k order z)

/-- The factor of mode `k` under a shift by a fraction of the line. -/
def shiftFactor (n k : Nat) (fraction : α) : Complex α :=
  let phase := 2 * pi * ofInt k * fraction
  if 2 * k = n then ⟨cos phase / ofInt n, 0⟩
  else ⟨cos phase / ofInt n, sin phase / ofInt n⟩

/-- The line moved by a fraction of its length: the new value at `j` is the old one at
`j + n * fraction`. -/
def shift (t : Modes α) (line : Array α) (fraction : α) : Array α :=
  t.sequence ((t.coefficients line).zipIdx.map fun (z, k) =>
    z * shiftFactor t.points k fraction)

end Modes

end HaloMesh
