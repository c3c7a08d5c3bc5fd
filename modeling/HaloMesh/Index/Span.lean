/-! Runs of consecutive integers, both ends included. -/

namespace HaloMesh.Index

/-- The integers from `lo` to `hi` in ascending order, none if `hi` lies below `lo`. -/
def span (lo hi : Int) : List Int :=
  (List.range (hi + 1 - lo).toNat).map fun (k : Nat) => lo + k

@[simp] theorem length_span (lo hi : Int) : (span lo hi).length = (hi + 1 - lo).toNat := by
  simp [span]

/-- A run holds exactly the integers between its ends. -/
@[simp] theorem mem_span {lo hi i : Int} : i ∈ span lo hi ↔ lo ≤ i ∧ i ≤ hi := by
  simp only [span, List.mem_map, List.mem_range]
  constructor
  · rintro ⟨k, inside, rfl⟩
    omega
  · rintro ⟨above, below⟩
    exact ⟨(i - lo).toNat, by omega, by omega⟩

end HaloMesh.Index
