import HaloMesh.Metric.Condition

/-! Inverses of three by three matrices by elimination with row exchanges. Beside the inverse
stands an estimate of how badly conditioned the matrix is; a matrix without a pivot has
no inverse. -/

namespace HaloMesh

structure Triple (β : Type) where
  x : β
  y : β
  z : β
deriving Repr

/-- A three by three matrix by rows. -/
structure Matrix3 (β : Type) where
  r0 : Triple β
  r1 : Triple β
  r2 : Triple β
deriving Repr

/-- A lower factor with ones on its diagonal and an upper factor. -/
structure Factors (β : Type) where
  l10 : β
  l20 : β
  l21 : β
  u00 : β
  u01 : β
  u02 : β
  u11 : β
  u12 : β
  u22 : β
deriving Repr

/-- Both factors in one matrix, the ones left out. -/
def Factors.entry {β : Type} (f : Factors β) : Nat → Nat → β
  | 0, 0 => f.u00
  | 0, 1 => f.u01
  | 0, _ => f.u02
  | 1, 0 => f.l10
  | 1, 1 => f.u11
  | 1, _ => f.u12
  | _, 0 => f.l20
  | _, 1 => f.l21
  | _, _ => f.u22

namespace Matrix3

variable {α : Type} [Scalar α]

open Scalar

def columnSwap01 (a : Matrix3 α) : Matrix3 α :=
  let swap (r : Triple α) : Triple α := ⟨r.y, r.x, r.z⟩
  ⟨swap a.r0, swap a.r1, swap a.r2⟩

def columnSwap02 (a : Matrix3 α) : Matrix3 α :=
  let swap (r : Triple α) : Triple α := ⟨r.z, r.y, r.x⟩
  ⟨swap a.r0, swap a.r1, swap a.r2⟩

def columnSwap12 (a : Matrix3 α) : Matrix3 α :=
  let swap (r : Triple α) : Triple α := ⟨r.x, r.z, r.y⟩
  ⟨swap a.r0, swap a.r1, swap a.r2⟩

/-- The largest sum of absolute values along a row. -/
def rowNorm (a : Matrix3 α) : α :=
  let sum (r : Triple α) : α := abs r.x + abs r.y + abs r.z
  maximum (maximum (sum a.r0) (sum a.r1)) (sum a.r2)

/-- The product of two matrices. A zero on the left leaves its row on the right out, even
if that is not finite. -/
def mul (a b : Matrix3 α) : Matrix3 α :=
  let add (s : Triple α) (v : α) (r : Triple α) : Triple α :=
    if same v 0 then s else ⟨s.x + v * r.x, s.y + v * r.y, s.z + v * r.z⟩
  let row (r : Triple α) : Triple α :=
    add (add (add ⟨0, 0, 0⟩ r.x b.r0) r.y b.r1) r.z b.r2
  ⟨row a.r0, row a.r1, row a.r2⟩

def subOne (a : Matrix3 α) : Matrix3 α :=
  ⟨⟨a.r0.x - 1, a.r0.y, a.r0.z⟩, ⟨a.r1.x, a.r1.y - 1, a.r1.z⟩, ⟨a.r2.x, a.r2.y, a.r2.z - 1⟩⟩

/-- The inverse of a product of factors: the inverse of the upper one, from which the lower
one is eliminated column by column. Every sum starts from zero, so no part of it is a
negative zero. -/
def ofFactorsInverse (f : Factors α) : Matrix3 α :=
  let v00 := 1 / f.u00
  let v11 := 1 / f.u11
  let v22 := 1 / f.u22
  let v01 := (v00 * f.u01 + 0) * -v11
  let v02 := (v00 * f.u02 + (0 + f.u12 * v01)) * -v22
  let v12 := (v11 * f.u12 + 0) * -v22
  let row (a b c : α) : Triple α :=
    let y := b - (0 + c * f.l21)
    ⟨a - (0 + y * f.l10 + c * f.l20), y, c⟩
  ⟨row v00 v01 v02, row 0 v11 v12, row 0 0 v22⟩

/-- The outcome of an inversion: the inverse and the condition of the matrix, none if that
is unbounded. -/
structure Inverted (β : Type) where
  inverse : Matrix3 β
  condition : Option β

/-- The quotients of two numbers by a third. A number that has no reciprocal divides them
one by one. -/
def divideBoth (a b d : α) : α × α :=
  if lt (abs d) Condition.leastNormal then (a / d, b / d) else (a * (1 / d), b * (1 / d))

/-- Elimination with the largest pivot of each column. None if a pivot is zero. -/
def invert? (a : Matrix3 α) : Option (Inverted α) :=
  let firstTwo := lt (abs a.r0.x) (abs a.r1.x)
  let best := if firstTwo then abs a.r1.x else abs a.r0.x
  let first : Nat := if lt best (abs a.r2.x) then 2 else if firstTwo then 1 else 0
  let p : Matrix3 α :=
    match first with
    | 0 => a
    | 1 => ⟨a.r1, a.r0, a.r2⟩
    | _ => ⟨a.r2, a.r1, a.r0⟩
  if same p.r0.x 0 then none
  else
    let u0 := p.r0
    let (l1, l2) := divideBoth p.r1.x p.r2.x u0.x
    let b11 := p.r1.y - l1 * u0.y
    let b12 := p.r1.z - l1 * u0.z
    let b21 := p.r2.y - l2 * u0.y
    let b22 := p.r2.z - l2 * u0.z
    let second := lt (abs b11) (abs b21)
    let (l10, l20, u11, u12, c21, c22) : α × α × α × α × α × α :=
      if second then (l2, l1, b21, b22, b11, b12) else (l1, l2, b11, b12, b21, b22)
    if same u11 0 then none
    else
      let (l21, _) := divideBoth c21 0 u11
      let u22 := c22 - l21 * u12
      if same u22 0 then none
      else
        let f : Factors α := ⟨l10, l20, l21, u0.x, u0.y, u0.z, u11, u12, u22⟩
        let x := ofFactorsInverse f
        let x := if second then x.columnSwap12 else x
        let x :=
          match first with
          | 0 => x
          | 1 => x.columnSwap01
          | _ => x.columnSwap02
        some ⟨x, Condition.ofFactors? a.rowNorm f.entry⟩

end Matrix3

end HaloMesh
