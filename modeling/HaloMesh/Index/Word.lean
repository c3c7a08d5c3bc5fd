import HaloMesh.Text.Number

/-! Cell numbers are signed words of 64 bits. A number that leaves their range comes back in at
the other end. -/

namespace HaloMesh.Index

/-- The word that a number counts as. -/
def wrap (n : Int) : Int := n.bmod (Nat.pow 2 64)

theorem wordEnd_eq : Text.wordEnd = 9223372036854775808 := rfl

/-- A number within the range counts as itself. -/
theorem wrap_of_fits {n : Int} (low : -Text.wordEnd ≤ n) (high : n < Text.wordEnd) :
    wrap n = n := by
  have half : (Nat.pow 2 63 : Nat) = 9223372036854775808 := rfl
  have full : (Nat.pow 2 64 : Nat) = 18446744073709551616 := rfl
  simp only [Text.wordEnd, half] at low high
  simp only [wrap, Int.bmod, full]
  omega

theorem wrap_add_wrap (m n : Int) : wrap (wrap m + wrap n) = wrap (m + n) := by
  simp only [wrap, Int.bmod_add_bmod, Int.add_bmod_bmod]

/-- The least word. -/
def least : Int := -Text.wordEnd

/-- The greatest word. -/
def greatest : Int := Text.wordEnd - 1

/-- The word after another; the least one follows the greatest. -/
def next (n : Int) : Int := if n = greatest then least else n + 1

/-- The word before another; the greatest one precedes the least. -/
def previous (n : Int) : Int := if n = least then greatest else n - 1

theorem next_of_lt {n : Int} (below : n < greatest) : next n = n + 1 :=
  if_neg (by omega)

theorem next_le {n : Int} (le : n ≤ greatest) : next n ≤ greatest := by
  rw [next]
  split
  · decide
  · omega

theorem previous_of_lt {n : Int} (above : least < n) : previous n = n - 1 :=
  if_neg (by omega)

/-- The largest number of values that storage can be had for. -/
def storageLimit : Int := (Nat.pow 2 45 : Nat)

end HaloMesh.Index
