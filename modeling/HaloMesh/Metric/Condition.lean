import HaloMesh.Scalar

/-! How badly conditioned a matrix is, estimated from its triangular factors. The norm of the
inverse is approached from below by solving for a few right hand sides. A solution that
would overflow is found together with a scale, of which the right hand side is a
multiple. -/

namespace HaloMesh.Condition

variable {α : Type} [Scalar α]

open Scalar

/-- The least number of full precision, `2 ^ -1022`. -/
def leastNormal : α := wholePower 2 (-1022)

/-- Numbers from this one on, `2 ^ -970`, can be divided by without care. -/
def tiny : α := wholePower 2 (-970)

/-- Numbers up to this one, `2 ^ 970`, can be multiplied without care. -/
def huge : α := wholePower 2 970

/-- The smaller of two numbers; undefined if one of them is. -/
def minimum (a b : α) : α := -maximum (-a) (-b)

/-- The number of rows. -/
def size : Nat := 3

/-- The first of the listed places with the largest absolute value. -/
def largestAt (x : Array α) (places : List Nat) : Nat :=
  match places with
  | [] => 0
  | i :: rest =>
    rest.foldl (fun best j => if lt (abs (x.getD best 0)) (abs (x.getD j 0)) then j else best) i

def largestSize (x : Array α) (places : List Nat) : α :=
  abs (x.getD (largestAt x places) 0)

def absSum (x : Array α) : α := x.foldl (fun s v => s + Scalar.abs v) 0

/-- One triangle of the factors. The upper one has its own diagonal, the lower one has
ones. -/
structure Triangle (α : Type) where
  entry : Nat → Nat → α
  upper : Bool
  transposed : Bool

namespace Triangle

/-- The order in which the unknowns are found. -/
def order (t : Triangle α) : List Nat :=
  if t.upper = t.transposed then List.range size else (List.range size).reverse

/-- The rows of a column beside the diagonal. -/
def column (t : Triangle α) (j : Nat) : List Nat :=
  (List.range size).filter fun i => if t.upper then decide (i < j) else decide (j < i)

/-- The columns of a row beside the diagonal. -/
def row (t : Triangle α) (i : Nat) : List Nat :=
  (List.range size).filter fun j => if t.upper then decide (i < j) else decide (j < i)

def columnSum (t : Triangle α) (j : Nat) : α :=
  (t.column j).foldl (fun s i => s + abs (t.entry i j)) 0

/-- Divides an unknown by its diagonal entry. -/
def divided (t : Triangle α) (j : Nat) (v : α) : α :=
  if t.upper then v / t.entry j j else v

/-- The solution without any care. -/
def plainSolution (t : Triangle α) (b : Array α) : Array α :=
  t.order.foldl (fun (x : Array α) i =>
    if t.transposed then
      let v := t.divided i (x.getD i 0)
      (t.row i).foldl (fun (x : Array α) j =>
        x.setIfInBounds j (x.getD j 0 - t.entry i j * v)) (x.setIfInBounds i v)
    else
      let sum := (t.row i).foldl (fun s j => s + t.entry i j * x.getD j 0) 0
      x.setIfInBounds i (t.divided i (x.getD i 0 - sum))) b

/-- A factor that keeps the sums of the columns within bounds, and these sums times it. -/
def reduction (t : Triangle α) : α × Array α :=
  let sums := ((List.range size).map t.columnSum).toArray
  let worst := largestSize sums (List.range size)
  if le worst huge then (1, sums)
  else
    let factor := 1 / (tiny * worst)
    (factor, sums.map fun s => s * factor)

/-- Goes on from unknown to unknown as long as the growth has not eaten up the bound. -/
def untilTiny (f : Nat → α × α → α × α) (finish : α × α → α) : List Nat → α × α → α
  | [], g => finish g
  | j :: rest, g => if le g.1 tiny then g.1 else untilTiny f finish rest (f j g)

/-- A bound from below on the reciprocal of the solution. -/
def reciprocalBound (t : Triangle α) (sums : Array α) (largest : α) : α :=
  let start := 1 / maximum largest tiny
  match t.transposed, t.upper with
  | false, true =>
    untilTiny (fun j (grow, bound) =>
      let d := abs (t.entry j j)
      let s := sums.getD j 0
      (if le tiny (d + s) then grow * (d / (d + s)) else 0,
        minimum bound (minimum 1 d * grow))) Prod.snd t.order (start, start)
  | false, false =>
    untilTiny (fun j (grow, bound) => (grow * (1 / (1 + sums.getD j 0)), bound)) Prod.fst
      t.order (minimum 1 start, start)
  | true, true =>
    untilTiny (fun j (grow, bound) =>
      let s := 1 + sums.getD j 0
      let d := abs (t.entry j j)
      (minimum grow (bound / s), if lt d s then bound * (d / s) else bound))
      (fun (grow, bound) => minimum grow bound) t.order (start, start)
  | true, false =>
    untilTiny (fun j (grow, bound) => (grow / (1 + sums.getD j 0), bound)) Prod.fst
      t.order (minimum 1 start, start)

end Triangle

/-- A solution on the way: the right hand side is the one asked for times the scale. -/
structure Scaled (α : Type) where
  x : Array α
  scale : α
  largest : α

namespace Scaled

def value (g : Scaled α) (j : Nat) : α := g.x.getD j 0

def put (g : Scaled α) (j : Nat) (v : α) : Scaled α := { g with x := g.x.setIfInBounds j v }

/-- Scales everything down. -/
def times (g : Scaled α) (r : α) : Scaled α :=
  ⟨g.x.map fun v => v * r, g.scale * r, g.largest * r⟩

/-- A right hand side brought within bounds. -/
def ofVector (b : Array α) : Scaled α :=
  let g : Scaled α := ⟨b, 1, largestSize b (List.range size)⟩
  if lt huge g.largest then { g.times (huge / g.largest) with largest := huge } else g

/-- Divides an unknown by a diagonal entry, scaling first if the quotient would be too
large. Without a diagonal entry there is a solution for nothing on the right. -/
def divide (g : Scaled α) (j : Nat) (d sum : α) : Scaled α :=
  let v := abs (g.value j)
  if lt tiny (abs d) then
    let g := if lt (abs d) 1 && lt (abs d * huge) v then g.times (1 / v) else g
    g.put j (g.value j / d)
  else if lt 0 (abs d) then
    let g :=
      if lt (abs d * huge) v then
        let r := abs d * huge / v
        g.times (if lt 1 sum then r / sum else r)
      else g
    g.put j (g.value j / d)
  else ⟨((List.range size).map fun i => if i = j then 1 else 0).toArray, 0, 0⟩

end Scaled

namespace Triangle

/-- Whether the diagonal, reduced by a factor, is one. -/
def isUnit (t : Triangle α) (factor : α) : Bool := !t.upper && same factor 1

/-- A diagonal entry, reduced by a factor. -/
def pivot (t : Triangle α) (factor : α) (j : Nat) : α :=
  if t.upper then t.entry j j * factor else factor

/-- Finds one unknown and takes its column off the right hand side. -/
def columnStep (t : Triangle α) (factor : α) (sums : Array α) (g : Scaled α) (j : Nat) :
    Scaled α :=
  let sum := sums.getD j 0
  let g := if t.isUnit factor then g else g.divide j (t.pivot factor j) sum
  let v := abs (g.value j)
  let g :=
    if lt 1 v then
      if lt ((huge - g.largest) * (1 / v)) sum then g.times (1 / v * 0.5) else g
    else if lt (huge - g.largest) (v * sum) then g.times 0.5
    else g
  let multiple := -(g.value j) * factor
  let rest := t.column j
  let g := rest.foldl (fun (g : Scaled α) i => g.put i (g.value i + multiple * t.entry i j)) g
  { g with largest := largestSize g.x rest }

/-- Finds one unknown from those found before it. -/
def rowStep (t : Triangle α) (factor : α) (sums : Array α) (g : Scaled α) (j : Nat) :
    Scaled α :=
  let r := 1 / maximum g.largest 1
  let d := t.pivot factor j
  let (g, used) :=
    if lt ((huge - abs (g.value j)) * r) (sums.getD j 0) then
      let r := r * 0.5
      let (r, used) := if lt 1 (abs d) then (minimum 1 (r * abs d), factor / d) else (r, factor)
      (if lt r 1 then g.times r else g, used)
    else (g, factor)
  let sum := (t.column j).foldl (fun s i =>
    s + (if same used 1 then t.entry i j else t.entry i j * used) * g.value i) 0
  let g :=
    if same used factor then
      let g := g.put j (g.value j - sum)
      if t.isUnit factor then g else g.divide j d 0
    else g.put j (g.value j / d - sum)
  { g with largest := maximum g.largest (abs (g.value j)) }

/-- Solves for a right hand side times a scale, which is one unless the solution could
overflow. -/
def solve (t : Triangle α) (b : Array α) : Array α × α :=
  let (factor, sums) := t.reduction
  let bound :=
    if same factor 1 then t.reciprocalBound sums (largestSize b (List.range size)) else 0
  if lt tiny (bound * factor) then (t.plainSolution b, 1)
  else
    let step := if t.transposed then t.rowStep factor sums else t.columnStep factor sums
    let g := t.order.foldl step (Scaled.ofVector b)
    (g.x, g.scale / factor)

end Triangle

/-- Divides a vector by a number in steps that neither overflow nor underflow. -/
def divideVector : (rounds : Nat) → α → α → Array α → Array α
  | 0, _, _, x => x
  | rounds + 1, numerator, denominator, x =>
    let smaller := denominator * leastNormal
    let larger := numerator / (1 / leastNormal)
    if !same numerator 0 && lt (abs numerator) (abs smaller) then
      divideVector rounds numerator smaller (x.map fun v => v * leastNormal)
    else if lt (abs denominator) (abs larger) then
      divideVector rounds larger denominator (x.map fun v => v * (1 / leastNormal))
    else x.map fun v => v * (numerator / denominator)

/-- Solves for the product of the factors, or for its transpose. None if the solution
cannot be written. -/
def solveBoth? (entry : Nat → Nat → α) (transposed : Bool) (b : Array α) : Option (Array α) :=
  let first : Triangle α := ⟨entry, transposed, transposed⟩
  let second : Triangle α := ⟨entry, !transposed, transposed⟩
  let (x, s) := first.solve b
  let (x, r) := second.solve x
  let scale := s * r
  if same scale 1 then some x
  else if same scale 0 || lt scale (largestSize x (List.range size) * leastNormal) then none
  else some (divideVector 4 1 scale x)

/-- Minus one for a negative number, the negative zero among them, and one for any
other. -/
def direction (x : α) : α := if lt x 0 || (same x 0 && lt (1 / x) 0) then -1 else 1

def directions (x : Array α) : Array α := x.map direction

def sameDirections (s t : Array α) : Bool :=
  (List.range size).all fun i => same (s.getD i 0) (t.getD i 0)

def unitVector (j : Nat) : Array α :=
  ((List.range size).map fun i => if i = j then 1 else 0).toArray

/-- Climbs from column to column of the inverse of the transposed product as long as the
sum of a column grows. Each column tells by the signs of its elements where to look next.
At most `rounds` columns are looked at. -/
def climb (entry : Nat → Nat → α) : (rounds : Nat) → Nat → Array α → α → Option α
  | 0, _, _, estimate => some estimate
  | rounds + 1, j, signs, estimate => do
    let column ← solveBoth? entry true (unitVector j)
    let sum := absSum column
    if sameDirections signs (directions column) || !lt estimate sum then return sum
    let back ← solveBoth? entry false (directions column)
    let k := largestAt back (List.range size)
    if same (back.getD j 0) (abs (back.getD k 0)) then return sum
    climb entry rounds k (directions column) sum

/-- An estimate of the row norm of the inverse, never above it but for rounding: the best
column found by climbing, or a test vector of alternating signs if that does better. -/
def inverseNorm? (entry : Nat → Nat → α) : Option α := do
  let start ← solveBoth? entry true #[1 / 3, 1 / 3, 1 / 3]
  let signs := directions start
  let back ← solveBoth? entry false signs
  let climbed ← climb entry 4 (largestAt back (List.range size)) signs (absSum start)
  let tested := 2 * absSum (← solveBoth? entry true #[1, -1.5, 2]) / 9
  return if lt climbed tested then tested else climbed

/-- The product of the norms of a matrix and of its inverse, none if that is unbounded. -/
def ofFactors? (norm : α) (entry : Nat → Nat → α) : Option α :=
  if same norm 0 || isInfinite norm then none
  else if isUndefined norm then some norm
  else do
    let inverse ← inverseNorm? entry
    let reciprocal := 1 / inverse / norm
    if same inverse 0 || same reciprocal 0 then none
    return 1 / reciprocal

end HaloMesh.Condition
