import HaloMesh.Fourier.Complex

/-! Transforms of a few points, the steps of the fast transform. The modes of real values
are listed as the mean, then the real and the imaginary part of one mode after the other,
with the unpaired mode of an even number last. The modes of complex values are listed in the
same order of frequencies; a negative frequency stands as its conjugate before the positive
one. Values turned by half a step between neighbours, which occur for even numbers only, are
listed like real ones. -/

namespace HaloMesh.Fourier

/-- The transforms of one small number of points and their unnormalised inverses. -/
structure Radix (α : Type) where
  points : Nat
  modes : List α → List α
  complexModes : List (Complex α) → List (Complex α)
  halfTurnModes : List α → List α
  values : List α → List α
  complexValues : List (Complex α) → List (Complex α)
  halfTurnValues : List α → List α

namespace Radix

variable {α : Type} [Scalar α]

def two : Radix α where
  points := 2
  modes
    | [a, b] => [a + b, a - b]
    | _ => []
  complexModes
    | [a, b] => [a + b, a.conj - b.conj]
    | _ => []
  halfTurnModes
    | [a, b] => [a, -b]
    | _ => []
  values
    | [a, b] => [a + b, a - b]
    | _ => []
  complexValues
    | [a, b] => [⟨a.re + b.re, a.im - b.im⟩, ⟨a.re - b.re, a.im + b.im⟩]
    | _ => []
  halfTurnValues
    | [a, b] => [a + a, -(b + b)]
    | _ => []

/-- The square root of two. -/
def rootTwo : α := 1.41421356237309504880168872420969807856967187537694

/-- Half the square root of two. -/
def halfRootTwo : α := 0.70710678118654752440084436210484903928483593768847

def four : Radix α where
  points := 4
  modes
    | [a, b, c, d] =>
      let outer := b + d
      let inner := a + c
      [outer + inner, a - c, d - b, inner - outer]
    | _ => []
  complexModes
    | [a, b, c, d] =>
      let outer := b + d
      let inner := a + c
      let even := a - c
      let odd : Complex α := ⟨b.im - d.im, d.re - b.re⟩
      [outer + inner, ⟨even.re - odd.re, odd.im - even.im⟩, odd + even,
        ⟨inner.re - outer.re, outer.im - inner.im⟩]
    | _ => []
  halfTurnModes
    | [a, b, c, d] =>
      let s := -halfRootTwo * (b + d)
      let t := halfRootTwo * (b - d)
      [t + a, s - c, a - t, s + c]
    | _ => []
  values
    | [a, b, c, d] =>
      let odd := a - d
      let even := a + d
      let re := b + b
      let im := c + c
      [even + re, odd - im, even - re, odd + im]
    | _ => []
  complexValues
    | [a, b, c, d] =>
      let s : Complex α := ⟨a.re - d.re, a.im + d.im⟩
      let t : Complex α := ⟨a.re + d.re, a.im - d.im⟩
      let u : Complex α := ⟨c.re + b.re, c.im - b.im⟩
      let v : Complex α := ⟨c.im + b.im, c.re - b.re⟩
      [t + u, ⟨s.re - v.re, s.im + v.im⟩, t - u, ⟨s.re + v.re, s.im - v.im⟩]
    | _ => []
  halfTurnValues
    | [a, b, c, d] =>
      let s := b + d
      let r := a - c
      let even := a + c
      let odd := d - b
      [even + even, rootTwo * (r - s), odd + odd, -rootTwo * (r + s)]
    | _ => []

/-! An odd number of points pairs each point, and each mode, with its mirror image. The sums
over the pairs meet cosines only and their differences sines only. -/

/-- Even and odd parts of values or modes: the unpaired one, the sums and the differences. -/
structure Parity (α : Type) where
  centre : α
  sums : List α
  differences : List α

/-- Applies a table of turns, a row for each mode and an entry for each pair of points. -/
def Parity.turn (wheel : List (List (Complex α))) (p : Parity α) : Parity α where
  centre := p.sums.foldl (· + ·) p.centre
  sums := wheel.map fun row =>
    (row.zip p.sums).foldl (fun r (w, s) => r + w.re * s) p.centre
  differences := wheel.map fun row =>
    match row.zip p.differences with
    | [] => 0
    | (w, d) :: rest => rest.foldl (fun r (w, d) => r + w.im * d) (w.im * d)

/-- The turns of three points. -/
def wheelThree : List (List (Complex α)) := [[⟨-0.5, 0.866025403784439⟩]]

/-- The turns of five points. -/
def wheelFive : List (List (Complex α)) :=
  let one : Complex α := ⟨0.309016994374947, 0.951056516295154⟩
  let two : Complex α := ⟨-0.809016994374947, 0.587785252292473⟩
  [[one, two], [two, one.conj]]

/-- The turns of any odd number of points: the powers of the powers of the least turn. -/
def wheelOf (n : Nat) : List (List (Complex α)) :=
  let angle : α := 2 * Scalar.pi / Scalar.ofInt n
  let least : Complex α := ⟨Scalar.cos angle, Scalar.sin angle⟩
  let half := (n - 1) / 2
  (least.powers half).map fun w => w.powers half

/-- Each of the first half of a list with its mirror image. -/
def mirrored {β : Type} (xs : List β) : List (β × β) := (xs.zip xs.reverse).take (xs.length / 2)

/-- The entries of a list two by two. -/
def inPairs {β : Type} : List β → List (β × β)
  | a :: b :: rest => (a, b) :: inPairs rest
  | _ => []

def odd (n : Nat) (wheel : List (List (Complex α))) : Radix α where
  points := n
  modes
    | [] => []
    | a :: rest =>
      let pairs := mirrored rest
      let p := Parity.turn wheel
        ⟨a, pairs.map fun (x, y) => x + y, pairs.map fun (x, y) => y - x⟩
      p.centre :: (p.sums.zip p.differences).flatMap fun (s, d) => [s, d]
  complexModes
    | [] => []
    | a :: rest =>
      let pairs := mirrored rest
      let re := Parity.turn wheel
        ⟨a.re, pairs.map fun (x, y) => x.re + y.re, pairs.map fun (x, y) => x.im - y.im⟩
      let im := Parity.turn wheel
        ⟨a.im, pairs.map fun (x, y) => x.im + y.im, pairs.map fun (x, y) => y.re - x.re⟩
      ⟨re.centre, im.centre⟩ ::
        ((re.sums.zip re.differences).zip (im.sums.zip im.differences)).flatMap
          fun ((s, d), (t, e)) => [⟨s - d, e - t⟩, ⟨s + d, t + e⟩]
  halfTurnModes := id
  values
    | [] => []
    | a :: rest =>
      let pairs := inPairs rest
      let p := Parity.turn wheel
        ⟨a, pairs.map fun (x, _) => x + x, pairs.map fun (_, y) => y + y⟩
      let both := p.sums.zip p.differences
      p.centre :: both.map (fun (s, d) => s - d) ++ (both.map fun (s, d) => s + d).reverse
  complexValues
    | [] => []
    | a :: rest =>
      let pairs := inPairs rest
      let re := Parity.turn wheel
        ⟨a.re, pairs.map fun (x, y) => y.re + x.re, pairs.map fun (x, y) => y.re - x.re⟩
      let im := Parity.turn wheel
        ⟨a.im, pairs.map fun (x, y) => y.im - x.im, pairs.map fun (x, y) => y.im + x.im⟩
      let both := (re.sums.zip re.differences).zip (im.sums.zip im.differences)
      ⟨re.centre, im.centre⟩ ::
        both.map (fun ((s, d), (t, e)) => (⟨s - e, t + d⟩ : Complex α))
          ++ (both.map fun ((s, d), (t, e)) => (⟨s + e, t - d⟩ : Complex α)).reverse
  halfTurnValues := id

/-- The transforms of a number of points that is two, four or odd. -/
def ofPoints : Nat → Radix α
  | 2 => two
  | 4 => four
  | 3 => odd 3 wheelThree
  | 5 => odd 5 wheelFive
  | n => odd n (wheelOf n)

end Radix

end HaloMesh.Fourier
