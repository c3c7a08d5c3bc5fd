import HaloMesh.Difference.Kernel

/-! The kernel of each method in each family. A kernel says how far it reaches, whether it
is a fixed weighting of its window, and its formula; the split and the spectral method
work on whole fields and have none. -/

namespace HaloMesh

/-- A formula of one field, of a velocity at the point and a field, or of two windows. -/
inductive Formula (α : Type) where
  | none
  | derivative (formula : Window α → α)
  | upwind (formula : α → Window α → α)
  | flow (formula : Window α → Window α → α)

structure Kernel (α : Type) where
  method : Method
  family : Family
  width : Nat
  isLinear : Bool
  formula : Formula α

namespace Kernel

variable {α : Type}

/-- A kernel put together from other default kernels. -/
def isSplit (k : Kernel α) : Bool := k.method = .split

/-- A kernel that works on the modes of a whole line. -/
def isSpectral (k : Kernel α) : Bool := k.method = .fft

variable [Scalar α]

/-- The kernel of a method, none where the family does not have it. -/
def of? (family : Family) (method : Method) : Option (Kernel α) :=
  let linear (width : Nat) (f : Window α → α) : Option (Kernel α) :=
    some ⟨method, family, width, true, .derivative f⟩
  let nonlinear (width : Nat) (f : Window α → α) : Option (Kernel α) :=
    some ⟨method, family, width, false, .derivative f⟩
  let upwind (width : Nat) (f : α → Window α → α) : Option (Kernel α) :=
    some ⟨method, family, width, false, .upwind f⟩
  let flow (width : Nat) (f : Window α → Window α → α) : Option (Kernel α) :=
    some ⟨method, family, width, false, .flow f⟩
  let whole (width : Nat) : Option (Kernel α) := some ⟨method, family, width, false, .none⟩
  match family.kind, family.staggered, method with
  | .first, false, .c2 => linear 1 firstC2
  | .first, false, .w2 => nonlinear 1 firstW2
  | .first, false, .c4 => linear 2 firstC4
  | .first, false, .s2 => nonlinear 2 firstS2
  | .first, false, .fft => whole 0
  | .second, false, .c2 => linear 1 secondC2
  | .second, false, .c4 => linear 2 secondC4
  | .second, false, .fft => whole 0
  | .fourth, false, .c2 => linear 2 fourthC2
  | .upwind, false, .u1 => upwind 1 upwindU1
  | .upwind, false, .u2 => upwind 2 upwindU2
  | .upwind, false, .c2 => upwind 1 upwindC2
  | .upwind, false, .u3 => upwind 2 upwindU3
  | .upwind, false, .w3 => upwind 2 upwindW3
  | .upwind, false, .c4 => upwind 2 upwindC4
  | .flux, false, .split => whole 1
  | .flux, false, .u1 => flow 1 fluxU1
  | .flux, false, .c2 => flow 1 fluxC2
  | .flux, false, .c4 => flow 2 fluxC4
  | .first, true, .c2 => linear 1 staggeredFirstC2
  | .first, true, .c4 => linear 2 staggeredFirstC4
  | .second, true, .c2 => linear 2 staggeredSecondC2
  | .upwind, true, .u1 => flow 1 staggeredUpwindU1
  | .upwind, true, .c2 => flow 1 staggeredUpwindC2
  | .flux, true, .split => whole 1
  | .flux, true, .u1 => flow 1 staggeredFluxU1
  | _, _, _ => none

/-- The kernel of a method along an axis. -/
def lookup (axis : Axis) (family : Family) (method : Method) : Except Error (Kernel α) := do
  family.admit axis method
  match of? family method with
  | some k => .ok k
  | none => .error (.methodUnavailable method family axis.name)

/-- The kernel along an axis given by its number. A number without an axis is refused what is
refused along x. -/
def lookupNumbered (number : Nat) (family : Family) (method : Method) :
    Except Error (Kernel α) :=
  match Axis.ofIndex? number, lookup .x family method with
  | some axis, _ => lookup axis family method
  | none, .error (.methodUnavailable m f _) =>
    .error (.methodUnavailable m f (Axis.indexName number))
  | none, r => r

/-- The coefficients of a linear kernel, found by applying it to unit windows. -/
def weights (formula : Window α → α) : List α :=
  (List.range 5).map fun (k : Nat) => formula (Window.unit k)

/-- The kernel on one window, with the velocity window beside it. -/
def apply (k : Kernel α) (v f : Window α) : Outcome α :=
  match k.formula with
  | .none => Outcome.outOfRange
  | .derivative formula => .ok (formula f)
  | .upwind formula => .ok (formula v.c f)
  | .flow formula => .ok (formula v f)

end Kernel

end HaloMesh
