import HaloMesh.Proofs.FlowDerivatives
import HaloMesh.Proofs.GridSplit
import HaloMesh.Proofs.OptionKeys

/-! Derivatives by default methods. Loading a grid settles a method that exists for every axis and family, and refuses
methods that reach beyond the guard cells. So every derivative by the default methods can be taken on a loaded mesh. -/

namespace HaloMesh

theorem mapM_members {ι β ε : Type} {items : List ι} {f : ι → Except ε β} {results : List β}
    (ran : items.mapM f = .ok results) {result : β} (member : result ∈ results) :
    ∃ item ∈ items, f item = .ok result := by
  induction items generalizing results with
  | nil =>
    cases ran
    cases member
  | cons item rest ih =>
    rw [List.mapM_cons] at ran
    cases first : f item with
    | error e =>
      rw [first] at ran
      cases ran
    | ok value =>
      cases later : rest.mapM f with
      | error e =>
        rw [first, later] at ran
        cases ran
      | ok values =>
        rw [first, later] at ran
        cases ran
        rcases List.mem_cons.mp member with rfl | among
        · exact ⟨item, List.mem_cons_self, first⟩
        · obtain ⟨other, included, found⟩ := ih later among
          exact ⟨other, List.mem_cons_of_mem _ included, found⟩

theorem mapM_getElem? {ι β ε : Type} {items : List ι} {f : ι → Except ε β} {results : List β}
    (ran : items.mapM f = .ok results) {k : Nat} {item : ι} (found : items[k]? = some item) :
    ∃ result, results[k]? = some result ∧ f item = .ok result := by
  induction items generalizing results k with
  | nil => cases found
  | cons head rest ih =>
    rw [List.mapM_cons] at ran
    cases first : f head with
    | error e =>
      rw [first] at ran
      cases ran
    | ok value =>
      cases later : rest.mapM f with
      | error e =>
        rw [first, later] at ran
        cases ran
      | ok values =>
        rw [first, later] at ran
        cases ran
        cases k with
        | zero =>
          obtain rfl : head = item := Option.some.inj found
          exact ⟨value, rfl, first⟩
        | succ k => exact ih later found

theorem mapM_reaches {ι β ε : Type} {items : List ι} {f : ι → Except ε β} {results : List β}
    (ran : items.mapM f = .ok results) {item : ι} (member : item ∈ items) : ∃ result ∈ results, f item = .ok result := by
  obtain ⟨k, found⟩ := List.getElem?_of_mem member
  obtain ⟨result, there, same⟩ := mapM_getElem? ran found
  exact ⟨result, List.mem_of_getElem? there, same⟩

theorem Family.admit_fallback {family : Family} (table : family.isTable = true) (axis : Axis) :
    family.admit axis family.fallback = .ok () := by
  obtain ⟨kind, staggered⟩ := family
  cases kind <;> cases staggered <;> cases axis <;> first | rfl | cases table

theorem Family.fallback_ne_standard (family : Family) : family.fallback ≠ .standard := by
  obtain ⟨kind, staggered⟩ := family
  cases kind <;> exact fun same => nomatch same

theorem Family.admit_standard (family : Family) (axis : Axis) : family.admit axis .standard ≠ .ok () := by
  obtain ⟨kind, staggered⟩ := family
  cases kind <;> cases staggered <;> cases axis <;> exact fun admitted => nomatch admitted

variable {α : Type} [Scalar α]

theorem Kernel.of?_isSome {family : Family} {method : Method} :
    (of? family method : Option (Kernel α)).isSome = true ↔ method ∈ family.methods := by
  obtain ⟨kind, staggered⟩ := family
  cases kind <;> cases staggered <;> cases method <;> simp [of?, Family.methods]

theorem Kernel.exists_lookup {axis : Axis} {family : Family} {method : Method}
    (admitted : family.admit axis method = .ok ()) : ∃ k : Kernel α, lookup axis family method = .ok k := by
  have listed : method ∈ family.methods := by
    simp only [ Family.admit] at admitted
    split at admitted
    · cases admitted
    split at admitted
    next listed => exact listed.1
    next => cases admitted
  have some_ : (of? family method : Option (Kernel α)).isSome = true := of?_isSome.mpr listed
  obtain ⟨k, found⟩ := Option.isSome_iff_exists.mp some_
  refine ⟨k, ?_⟩
  rw [lookup, admitted, found]
  rfl

namespace Defaults

variable {o : Options α} {d : Defaults} {warnings : List String}

/-- A method that is chosen exists, or is the one that needs no choice. -/
theorem choose_admitted {axis : Axis} {family : Family} {method : Method}
    (chosen : choose o axis family = .ok (method, warnings)) :
    family.admit axis method = .ok () ∨ method = family.fallback := by
  simp only [choose] at chosen
  split at chosen
  · cases chosen
    exact .inr rfl
  next name found =>
    split at chosen
    · cases chosen
    next asked named =>
      split at chosen
      next admitted =>
        cases chosen
        exact .inl admitted
      next refused =>
        split at chosen
        · cases chosen
        · cases chosen
          exact .inr rfl

theorem mem_places {axis : Axis} {family : Family} : (axis, family) ∈ places ↔ family.isTable = true := by
  obtain ⟨kind, staggered⟩ := family
  cases axis <;> cases kind <;> cases staggered <;> decide

/-- Reading the settings chooses a method for every axis and family, and keeps it under both. -/
theorem read_chosen (read : Defaults.read o = .ok (d, warnings)) :
    (∀ c ∈ d.chosen, ∃ notes, choose o c.1.1 c.1.2 = .ok (c.2, notes)) ∧ ∀ place ∈ places, ∃ c ∈ d.chosen, c.1 = place := by
  simp only [Defaults.read, bind, Except.bind] at read
  split at read
  · cases read
  next results chosen =>
    cases read
    refine ⟨fun c listed => ?_, fun place listed => ?_⟩
    · obtain ⟨⟨entry, notes⟩, among, rfl⟩ := List.mem_map.mp listed
      obtain ⟨place, -, settled⟩ := mapM_members chosen among
      refine ⟨notes, ?_⟩
      split at settled
      · cases settled
      next settling =>
        cases settled
        exact settling
    · obtain ⟨result, among, settled⟩ := mapM_reaches chosen listed
      refine ⟨result.1, List.mem_map_of_mem among, ?_⟩
      split at settled
      · cases settled
      · cases settled
        rfl

/-- The default method of a family is what was chosen for it. -/
theorem method_chosen (read : Defaults.read o = .ok (d, warnings)) (axis : Axis) {family : Family}
    (table : family.isTable = true) : ∃ notes, choose o axis family = .ok (d.method axis family, notes) := by
  obtain ⟨settled, complete⟩ := read_chosen read
  obtain ⟨c, listed, own⟩ := complete (axis, family) (mem_places.mpr table)
  cases found : d.chosen.find? fun c => c.1 = (axis, family) with
  | none => exact absurd (decide_eq_true own) (List.find?_eq_none.mp found c listed)
  | some c =>
    obtain ⟨place, method⟩ := c
    obtain rfl : place = (axis, family) := by simpa using List.find?_some found
    obtain ⟨notes, chosen⟩ := settled _ (List.mem_of_find?_eq_some found)
    refine ⟨notes, ?_⟩
    rw [Defaults.method, found, chosen]
    have named : method ≠ .standard := by
      rintro rfl
      rcases choose_admitted chosen with admitted | same
      · exact family.admit_standard axis admitted
      · exact family.fallback_ne_standard same.symm
    cases method <;> first | rfl | exact absurd rfl named

theorem method_admitted (read : Defaults.read o = .ok (d, warnings)) (axis : Axis) {family : Family}
    (table : family.isTable = true) : family.admit axis (d.method axis family) = .ok () := by
  obtain ⟨notes, chosen⟩ := method_chosen read axis table
  rcases choose_admitted chosen with admitted | same
  · exact admitted
  · rw [same]
    exact family.admit_fallback table axis

/-- Every family that has methods has a default kernel along every axis. -/
theorem exists_default (read : Defaults.read o = .ok (d, warnings)) (axis : Axis) {family : Family}
    (table : family.isTable = true) : ∃ k : Kernel α, d.resolve axis family .standard = .ok k := by
  rw [resolve, if_pos rfl]
  exact Kernel.exists_lookup (method_admitted read axis table)

end Defaults

namespace Mesh

variable {source : GridSource α} {o : Options α} {endpoint : Transport.Endpoint} {m : Mesh α} {messages : List String}

theorem default_kernel (loaded : Mesh.load source o endpoint = .ok (m, messages)) (axis : Axis) {kind : Kind}
    (checked : kind ∈ [Kind.first, Kind.second, Kind.upwind, Kind.flux]) :
    ∃ k, m.kernel axis ⟨kind, false⟩ .standard = .ok k := by
  obtain ⟨-, ⟨_, read⟩, -, -⟩ := load_reads loaded
  have table : (⟨kind, false⟩ : Family).isTable = true := by cases kind <;> rfl
  obtain ⟨k, resolved⟩ := Defaults.exists_default (α := α) read axis table
  have narrow : ¬ (axis ≠ .z ∧ m.guards axis < k.width) := by
    rintro ⟨across, wide⟩
    have := default_width loaded across checked resolved
    omega
  refine ⟨k, ?_⟩
  rw [kernel, resolved]
  exact if_neg narrow

end Mesh

def formlessOptions : Options Whole :=
  ⟨[("nx", .whole 6), ("ny", .whole 2), ("nz", .whole 2), ("mxg", .whole 1), ("myg", .whole 1), ("nxpe", .whole 1),
    ("ddx", .table [("flux", .text "split")]), ("ddz", .table [("first", .text "fft")])]⟩

def evenField : Field Whole :=
  { nx := 6, ny := 4, nz := 2, data := Array.replicate 48 ⟨1⟩, loc := .centre, aligned := false
    data_size := by rw [Array.size_replicate]; rfl }

theorem load_formless : ∃ m messages, Mesh.load GridSource.empty formlessOptions ⟨0, 1⟩ = .ok (m, messages) ∧
    m.extents = ⟨6, 4, 2⟩ ∧ (m.xstart = 1 ∧ m.xend = 4) ∧ m.defaults.method .x ⟨.flux, false⟩ = .split ∧
    m.defaults.method .z ⟨.first, false⟩ = .fft := by
  have evaluated : ((Mesh.load GridSource.empty formlessOptions ⟨0, 1⟩).toOption.map fun p =>
      (p.1.extents, (p.1.xstart, p.1.xend), p.1.defaults.method .x ⟨.flux, false⟩,
        p.1.defaults.method .z ⟨.first, false⟩)) = some (⟨6, 4, 2⟩, (1, 4), .split, .fft) := by decide +kernel
  cases loaded : (Mesh.load GridSource.empty formlessOptions ⟨0, 1⟩ : Outcome (Mesh Whole × List String)) with
  | error failure =>
    rw [loaded] at evaluated
    cases evaluated
  | ok p =>
    rw [loaded] at evaluated
    simp only [Except.toOption, Option.map_some, Option.some.injEq, Prod.mk.injEq] at evaluated
    exact ⟨p.1, p.2, rfl, evaluated⟩

end HaloMesh
