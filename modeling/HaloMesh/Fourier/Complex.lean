import HaloMesh.Scalar

/-! Complex numbers over the scalars, multiplied term by term. -/

namespace HaloMesh

structure Complex (α : Type) where
  re : α
  im : α
deriving Repr

namespace Complex

variable {α : Type} [Scalar α]

instance : Add (Complex α) := ⟨fun a b => ⟨a.re + b.re, a.im + b.im⟩⟩

instance : Sub (Complex α) := ⟨fun a b => ⟨a.re - b.re, a.im - b.im⟩⟩

instance : Mul (Complex α) :=
  ⟨fun a b => ⟨a.re * b.re - a.im * b.im, a.re * b.im + a.im * b.re⟩⟩

instance : Inhabited (Complex α) := ⟨⟨0, 0⟩⟩

def ofScalar (x : α) : Complex α := ⟨x, 0⟩

/-- The other number with the same real part and size. -/
def conj (z : Complex α) : Complex α := ⟨z.re, -z.im⟩

/-- The first `n` powers, starting with the number itself. -/
def powers (z : Complex α) (n : Nat) : List (Complex α) :=
  (List.range (n - 1)).foldl (fun (zs : List (Complex α)) _ =>
    zs ++ [z * zs.getLastD z]) [z]

end Complex

end HaloMesh
