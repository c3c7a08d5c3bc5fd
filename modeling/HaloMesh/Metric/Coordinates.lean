import HaloMesh.Field.Basic
import HaloMesh.Metric.Inverse

/-! The metric of a mesh at one cell location and what derives from it. All quantities vary in
x and y only and are stored as fields constant in z. -/

namespace HaloMesh

/-- The independent components of a symmetric tensor. -/
inductive Pair where
  | p11 | p22 | p33 | p12 | p13 | p23
deriving DecidableEq, Repr

namespace Pair

/-- In the order in which components are kept and exchanged. -/
def all : List Pair := [p11, p22, p33, p12, p13, p23]

def name : Pair → String
  | p11 => "11"
  | p22 => "22"
  | p33 => "33"
  | p12 => "12"
  | p13 => "13"
  | p23 => "23"

/-- The component of two indices in either order. -/
def of : Axis → Axis → Pair
  | .x, .x => p11
  | .y, .y => p22
  | .z, .z => p33
  | .x, .y => p12
  | .y, .x => p12
  | .x, .z => p13
  | .z, .x => p13
  | .y, .z => p23
  | .z, .y => p23

/-- The two indices of a component, the smaller first. -/
def axes : Pair → Axis × Axis
  | p11 => (.x, .x)
  | p22 => (.y, .y)
  | p33 => (.z, .z)
  | p12 => (.x, .y)
  | p13 => (.x, .z)
  | p23 => (.y, .z)

/-- The components row after row of the upper triangle. -/
def packed : List Pair := [p11, p12, p13, p22, p23, p33]

/-- The component of two index numbers in either order. A column number beyond its row goes
on in the next row of the triangle. -/
def ofIndices? (i j : Nat) : Option Pair :=
  let row := min i j
  let place : Int := (3 * row + (max i j - row) : Nat) - (row * (row - 1) / 2 : Nat)
  if place < 0 then none else packed[place.toNat]?

def isDiagonal : Pair → Bool
  | p11 => true
  | p22 => true
  | p33 => true
  | _ => false

end Pair

/-- A symmetric tensor. -/
structure Symmetric (β : Type) where
  c11 : β
  c22 : β
  c33 : β
  c12 : β
  c13 : β
  c23 : β
deriving Repr

namespace Symmetric

variable {β γ : Type}

def get (s : Symmetric β) : Pair → β
  | .p11 => s.c11
  | .p22 => s.c22
  | .p33 => s.c33
  | .p12 => s.c12
  | .p13 => s.c13
  | .p23 => s.c23

def set (s : Symmetric β) (p : Pair) (b : β) : Symmetric β :=
  match p with
  | .p11 => { s with c11 := b }
  | .p22 => { s with c22 := b }
  | .p33 => { s with c33 := b }
  | .p12 => { s with c12 := b }
  | .p13 => { s with c13 := b }
  | .p23 => { s with c23 := b }

def ofFunction (f : Pair → β) : Symmetric β :=
  ⟨f .p11, f .p22, f .p33, f .p12, f .p13, f .p23⟩

/-- Computes the components in order. -/
def ofFunctionM {m : Type → Type} [Monad m] (f : Pair → m β) : m (Symmetric β) := do
  let a ← f .p11
  let b ← f .p22
  let c ← f .p33
  let d ← f .p12
  let e ← f .p13
  let g ← f .p23
  return ⟨a, b, c, d, e, g⟩

def toList (s : Symmetric β) : List β := Pair.all.map s.get

/-- The tensor with the given components, in order; missing ones stay. -/
def replace (s : Symmetric β) (values : List β) : Symmetric β :=
  (Pair.all.zip values).foldl (fun s (p, v) => s.set p v) s

end Symmetric

/-- Coordinates at one location. The symbols are the Christoffel symbols of the second
kind, one symmetric tensor for each upper index, and the laplacian coefficients are
`(1/J) d_j (J g^ij)`. -/
structure Coordinates (α : Type) where
  loc : Location
  dx : Field α
  dy : Field α
  dz : α
  contravariant : Symmetric (Field α)
  covariant : Symmetric (Field α)
  jacobian : Field α
  bxy : Field α
  symbols : Triple (Symmetric (Field α))
  laplacian : Triple (Field α)
  shiftTorsion : Field α
  intShiftTorsion : Field α

def Triple.get {β : Type} (t : Triple β) : Axis → β
  | .x => t.x
  | .y => t.y
  | .z => t.z

def Triple.set {β : Type} (t : Triple β) (axis : Axis) (b : β) : Triple β :=
  match axis with
  | .x => { t with x := b }
  | .y => { t with y := b }
  | .z => { t with z := b }

/-- The fields of a coordinate system by name. -/
inductive Quantity where
  | dx | dy | jacobian | bxy | shiftTorsion | intShiftTorsion
  | contravariant (p : Pair)
  | covariant (p : Pair)
  | symbol (k : Axis) (p : Pair)
  | laplacian (k : Axis)
deriving DecidableEq, Repr

namespace Quantity

/-- The number an axis has in names. -/
def axisNumber : Axis → String
  | .x => "1"
  | .y => "2"
  | .z => "3"

def name : Quantity → String
  | dx => "dx"
  | dy => "dy"
  | jacobian => "J"
  | bxy => "Bxy"
  | shiftTorsion => "ShiftTorsion"
  | intShiftTorsion => "IntShiftTorsion"
  | contravariant p => "g" ++ p.name
  | covariant p => "g_" ++ p.name
  | symbol k p => "G" ++ axisNumber k ++ "_" ++ p.name
  | laplacian k => "G" ++ axisNumber k

/-- What is exchanged with the neighbours before the geometry is computed, in order. -/
def metric : List Quantity :=
  [dx, dy] ++ Pair.all.map contravariant ++ Pair.all.map covariant ++ [jacobian, bxy]

/-- What the geometry adds, in the order it is exchanged. -/
def geometry : List Quantity :=
  (Axis.all.flatMap fun k => Pair.all.map (symbol k)) ++ Axis.all.map laplacian

def all : List Quantity := metric ++ [shiftTorsion, intShiftTorsion] ++ geometry

def ofName? (s : String) : Option Quantity := all.find? fun q => q.name = s

/-- Spacings and diagonal metric components have to be positive. -/
def isPositive : Quantity → Bool
  | dx => true
  | dy => true
  | contravariant p => p.isDiagonal
  | covariant p => p.isDiagonal
  | _ => false

end Quantity

namespace Coordinates

variable {α : Type}

def get (c : Coordinates α) : Quantity → Field α
  | .dx => c.dx
  | .dy => c.dy
  | .jacobian => c.jacobian
  | .bxy => c.bxy
  | .shiftTorsion => c.shiftTorsion
  | .intShiftTorsion => c.intShiftTorsion
  | .contravariant p => c.contravariant.get p
  | .covariant p => c.covariant.get p
  | .symbol k p => (c.symbols.get k).get p
  | .laplacian k => c.laplacian.get k

def set (c : Coordinates α) (q : Quantity) (f : Field α) : Coordinates α :=
  match q with
  | .dx => { c with dx := f }
  | .dy => { c with dy := f }
  | .jacobian => { c with jacobian := f }
  | .bxy => { c with bxy := f }
  | .shiftTorsion => { c with shiftTorsion := f }
  | .intShiftTorsion => { c with intShiftTorsion := f }
  | .contravariant p => { c with contravariant := c.contravariant.set p f }
  | .covariant p => { c with covariant := c.covariant.set p f }
  | .symbol k p => { c with symbols := c.symbols.set k ((c.symbols.get k).set p f) }
  | .laplacian k => { c with laplacian := c.laplacian.set k f }

def setAll (c : Coordinates α) (qs : List Quantity) (fields : List (Field α)) : Coordinates α :=
  (qs.zip fields).foldl (fun c (q, f) => c.set q f) c

/-- The metric with upper indices. -/
def contravariantAt (c : Coordinates α) (i j : Axis) : Field α := c.contravariant.get (.of i j)

/-- The metric with lower indices. -/
def covariantAt (c : Coordinates α) (i j : Axis) : Field α := c.covariant.get (.of i j)

/-- The symbol with upper index `k` and lower indices `i` and `j`. -/
def symbolAt (c : Coordinates α) (k i j : Axis) : Field α := (c.symbols.get k).get (.of i j)

/-- A symbol by index numbers, none if the upper one is no axis or the lower ones leave the
triangle. -/
def symbolAtIndices? (c : Coordinates α) (k i j : Nat) : Option (Field α) := do
  return (c.symbols.get (← Axis.ofIndex? k)).get (← Pair.ofIndices? i j)

/-- The grid spacing along an axis. -/
def spacing (c : Coordinates α) : Axis → Field α
  | .x => c.dx
  | .y => c.dy
  | .z => (c.dx.fill c.dz).setAligned false |>.retag c.loc

end Coordinates

end HaloMesh
