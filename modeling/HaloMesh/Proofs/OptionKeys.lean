import HaloMesh.Proofs.LineDerivatives

/-! Which settings matter to what. A key with a dot leads into a table; the methods of derivatives are the only settings
with such keys. Neither they nor the grid depend on the number of blocks in x that is asked for. A grid that says nothing of
its shape has the one that the options ask for. -/

namespace HaloMesh

theorem Text.length_parts {mark : Char} {cs : List Char} (member : mark ∈ cs) : 2 ≤ (Text.parts mark cs).length := by
  have some_ (cs : List Char) : Text.parts mark cs ≠ [] := by
    cases cs with
    | nil => simp [Text.parts]
    | cons c cs =>
      simp only [Text.parts]
      split
      · simp
      · split <;> simp
  induction cs with
  | nil => cases member
  | cons c cs ih =>
    simp only [Text.parts]
    split
    next =>
      have := List.length_pos_iff.mpr (some_ cs)
      simp only [List.length_cons]
      omega
    next other =>
      have later := ih ((List.mem_cons.mp member).resolve_left (Ne.symm other))
      split
      next none => exact absurd none (some_ cs)
      next first rest found =>
        rw [found] at later
        exact later

namespace Options

variable {α : Type} {o o' : Options α} {key : String}

theorem length_path (dotted : '.' ∈ key.toList) : 2 ≤ (path key).length := by
  have kept : '.' ∈ (Text.lower key).toList := by
    rw [Text.lower, String.toList_map]
    exact List.mem_map.mpr ⟨'.', dotted, by decide⟩
  rw [path, List.length_map]
  exact Text.length_parts kept

/-- Settings that are no tables. -/
def Plain (o : Options α) : Prop := ∀ entry ∈ o.entries, ∀ inner, entry.2 ≠ .table inner

theorem get?_dotted (plain : o.Plain) (dotted : '.' ∈ key.toList) : o.get? key = none := by
  have long := length_path dotted
  rw [get?]
  cases steps : path key with
  | nil => simp [steps] at long
  | cons first more =>
    cases more with
    | nil => simp [steps] at long
    | cons second rest =>
      simp only [follow?]
      split
      next inner found =>
        obtain ⟨entry, among, same⟩ := Option.map_eq_some_iff.mp found
        exact absurd same (plain entry (List.mem_of_find?_eq_some among) inner)
      next => rfl

/-- Settings that differ under one key at most. -/
def SameBut (key : String) (o o' : Options α) : Prop := ∀ other, path other ≠ path key → o.get? other = o'.get? other

variable [Scalar α]

theorem real_unset (unset : o.isSet key = false) (dflt : α) : o.real key dflt = dflt := by
  rw [real, Option.isSome_eq_false_iff.mp unset |> Option.isNone_iff_eq_none.mp]
  rfl

theorem text_unset (unset : o.isSet key = false) (dflt : String) : o.text key dflt = dflt := by
  rw [text, Option.isSome_eq_false_iff.mp unset |> Option.isNone_iff_eq_none.mp]
  rfl

end Options

variable {α : Type} [Scalar α] {o o' : Options α}

theorem transformName_unset (unset : o.isSet "paralleltransform" = false) : transformName o = "identity" := by
  rw [transformName, Options.text_unset unset]
  decide +kernel

/-! Shapes of grids without legs and without a separatrix among their columns. -/

namespace GridShape

/-- What the options say where they alone are asked, and the grid is closed or open in y as a whole. -/
structure Asked (o : Options α) (g : GridShape α) : Prop where
  sizes : Index.wrap (o.whole "nx" 0) = g.nx ∧ Index.wrap (o.whole "ny" 0) = g.ny ∧ Index.wrap (o.whole "nz" 1) = g.nz
  guards : Index.wrap (o.whole "MXG" 2) = g.mxg ∧ Index.wrap (o.whole "MYG" 2) = g.myg ∧ 0 ≤ g.mxg ∧ 0 ≤ g.myg
  room : Index.wrap (2 * g.mxg) < g.nx ∧ 1 ≤ g.ny ∧ 1 ≤ g.nz ∧ g.nx ≤ Index.storageLimit
  range : o.real "ZMIN" 0 = g.zMin ∧ o.real "ZMAX" 1 = g.zMax
  extent : Scalar.le g.zMax g.zMin = false
  separatrix : Index.wrap (o.whole "ixseps1" g.nx) = g.nx
  legs : Index.wrap (o.whole "jyseps1_1" (-1)) = -1 ∧ Index.wrap (o.whole "jyseps2_2" (g.ny - 1)) = g.ny - 1
  topology : g.topology = .rectangular g.ny (if o.isSet "periodicY" then o.flag "periodicY" false else true)
  flags : o.flag "TwistShift" false = g.twistShift ∧ o.flag "periodicX" false = g.periodicX ∧
    o.flag "StaggerGrids" false = g.staggerGrids ∧ o.flag "ShiftXderivs" false = g.shiftXderivs ∧
    o.flag "IncIntShear" false = g.incIntShear
  straight : g.twistShift = false ∧ g.shiftAngle = none

/-- The variables that shapes are read from. -/
def variableNames : List String := ["nx", "ny", "nz", "ixseps1", "jyseps1_1", "jyseps2_2", "ShiftAngle"]

namespace Asked

variable {g : GridShape α} {source : GridSource α} (asked : Asked o g)
  (silent : ∀ name ∈ variableNames, source.hasVariable name = false)
include asked silent

theorem readTopology : GridShape.readTopology source o g.nx g.ny = .ok g.topology := by
  simp only [variableNames, List.forall_mem_cons, List.not_mem_nil, false_implies, implies_true, and_true] at silent
  simp only [GridShape.readTopology, gridWhole, silent, asked.separatrix, asked.legs, asked.topology]
  cases o.isSet "periodicY" <;> simp [bind, Except.bind, pure, Except.pure]

theorem read : GridShape.read source o = .ok (g, []) := by
  have topology := asked.readTopology silent
  simp only [variableNames, List.forall_mem_cons, List.not_mem_nil, false_implies, implies_true, and_true] at silent
  have angle : GridShape.readShiftAngle source g.nx = .ok g.shiftAngle := by
    rw [GridShape.readShiftAngle, silent.2.2.2.2.2.2, if_neg (not_lt.mpr asked.room.2.2.2), asked.straight.2]
    rfl
  have quiet : (g.twistShift && !false) = false := by rw [asked.straight.1, Bool.false_and]
  have guards : ¬ (g.mxg < 0 ∨ g.myg < 0) := by
    have := asked.guards
    omega
  have room : ¬ (g.nx ≤ Index.wrap (2 * g.mxg) ∨ g.ny < 1 ∨ g.nz < 1) := by
    have := asked.room
    omega
  simp only [GridShape.read, gridWhole, silent, asked.sizes, asked.guards, asked.range, asked.extent, asked.flags, bind,
    Except.bind, Except.mapError, guards, room, angle, topology, quiet, Bool.false_eq_true, ↓reduceIte]
  rfl

end Asked
end GridShape

/-! Methods of derivatives. -/

/-- Without tables nothing is said about methods. -/
theorem Defaults.read_plain (plain : o.Plain) :
    Defaults.read o = .ok (⟨Defaults.places.map fun place => (place, place.2.fallback)⟩, []) := by
  have unset (axis : Axis) (family : Family) : Defaults.choose o axis family = .ok (family.fallback, []) := by
    have none_ : ((Defaults.keys family).map fun k => Defaults.sectionName axis ++ "." ++ k).find? o.isSet = none := by
      apply List.find?_eq_none.mpr
      intro name member
      obtain ⟨k, -, rfl⟩ := List.mem_map.mp member
      rw [Options.isSet, Options.get?_dotted plain (by simp)]
      simp
    simp only [Defaults.choose, none_]
  simp only [Defaults.read, unset]
  rfl

theorem Defaults.choose_congr (same : ∀ key, '.' ∈ key.toList → o.get? key = o'.get? key) (axis : Axis) (family : Family) :
    Defaults.choose o axis family = Defaults.choose o' axis family := by
  have setting (k : String) : o.get? (Defaults.sectionName axis ++ "." ++ k) = o'.get? (Defaults.sectionName axis ++ "." ++ k) :=
    same _ (by simp)
  have asked (k : String) : o.isSet (Defaults.sectionName axis ++ "." ++ k) = o'.isSet (Defaults.sectionName axis ++ "." ++ k) := by
    rw [Options.isSet, Options.isSet, setting]
  simp only [Defaults.choose, List.find?_map, Function.comp_def, asked]
  cases (Defaults.keys family).find? fun k => o'.isSet (Defaults.sectionName axis ++ "." ++ k) with
  | none => rfl
  | some k => simp only [Option.map_some, Options.text, setting]

theorem Defaults.read_congr (same : ∀ key, '.' ∈ key.toList → o.get? key = o'.get? key) :
    Defaults.read o = Defaults.read o' := by
  simp only [Defaults.read, Defaults.choose_congr same]

/-! The grid. -/

/-- The settings that are read for a grid before it is split. -/
def GridShape.keys : List String :=
  ["nx", "ny", "nz", "MXG", "MYG", "ZMIN", "ZMAX", "ixseps1", "jyseps1_1", "jyseps2_2", "periodicX", "periodicY",
    "TwistShift", "StaggerGrids", "ShiftXderivs", "IncIntShear"]

theorem GridShape.read_congr (same : ∀ key ∈ GridShape.keys, o.get? key = o'.get? key) (source : GridSource α) :
    GridShape.read source o = GridShape.read source o' := by
  simp only [GridShape.keys, List.forall_mem_cons] at same
  simp only [GridShape.read, GridShape.readTopology, gridWhole, Options.whole, Options.flag, Options.real, Options.isSet, same]
  rfl

theorem GridShape.twistShift_eq {source : GridSource α} {g : GridShape α} {warnings : List String}
    (read : GridShape.read source o = .ok (g, warnings)) : g.twistShift = o.flag "TwistShift" false := by
  simp only [GridShape.read, Outcome.bind_eq_ok, Outcome.guard_eq_ok, Outcome.returned_eq_ok, pure, Except.pure,
    Except.ok.injEq, Prod.mk.injEq] at read
  obtain ⟨nx, -, ny, -, nz, -, -, -, -, t, -, angles, -, rfl, -⟩ := read
  rfl

/-- Settings that differ only in the number of blocks in x describe the same grid and the same methods. -/
theorem Options.SameBut.reads (same : Options.SameBut "NXPE" o o') (source : GridSource α) :
    GridShape.read source o = GridShape.read source o' ∧ Defaults.read o = Defaults.read o' := by
  have grid : ∀ key ∈ GridShape.keys, Options.path key ≠ Options.path "NXPE" := by decide +kernel
  have single : (Options.path "NXPE").length = 1 := by decide +kernel
  refine ⟨GridShape.read_congr (fun key member => same key (grid key member)) source, Defaults.read_congr ?_⟩
  intro key dotted
  apply same
  intro equal
  have long := Options.length_path dotted
  rw [equal, single] at long
  omega

/-- A loop of checks that has passed has passed each of them. -/
theorem forM_ok {ι ε : Type} {check : ι → Except ε PUnit} {items : List ι} (passed : items.forM check = .ok ())
    {item : ι} (member : item ∈ items) : check item = .ok () := by
  induction items with
  | nil => cases member
  | cons first rest ih =>
    change (check first >>= fun _ => rest.forM check) = _ at passed
    cases result : check first with
    | error e =>
      rw [result] at passed
      cases passed
    | ok _ =>
      rw [result] at passed
      rcases List.mem_cons.mp member with rfl | among
      · exact result
      · exact ih passed among

/-! What a loaded block has read. -/

namespace Mesh

variable {source : GridSource α} {endpoint : Transport.Endpoint} {m : Mesh α} {messages : List String}

theorem load_reads (loaded : Mesh.load source o endpoint = .ok (m, messages)) :
    (∃ warnings, GridShape.read source o = .ok (m.shape, warnings)) ∧
      (∃ warnings, Defaults.read o = .ok (m.defaults, warnings)) ∧ checkDefaultWidths m.shape m.defaults = .ok () ∧
      m.localNz = m.shape.nz := by
  simp only [Mesh.load, Outcome.bind_eq_ok, Outcome.guard_eq_ok, Outcome.returned_eq_ok, pure, Except.pure, Except.ok.injEq,
    Prod.mk.injEq] at loaded
  obtain ⟨⟨g, warnings⟩, read, nxpe, -, columns, -, rows, -, xs, -, ys, -, up, -, down, -, ⟨defaults, more⟩, chosen, _, fits,
    -, rfl, -⟩ := loaded
  refine ⟨⟨warnings, read⟩, ⟨more, ?_⟩, fits, rfl⟩
  cases result : (Defaults.read o : Except Error (Defaults × List String)) with
  | error e =>
    rw [result] at chosen
    cases chosen
  | ok found =>
    rw [result] at chosen
    exact chosen

theorem load_options (loaded : Mesh.load source o endpoint = .ok (m, messages)) : m.options = o := by
  simp only [Mesh.load, Outcome.bind_eq_ok, Outcome.guard_eq_ok, pure, Except.pure, Except.ok.injEq, Prod.mk.injEq] at loaded
  obtain ⟨⟨g, warnings⟩, -, nxpe, -, columns, -, rows, -, xs, -, ys, -, up, -, down, -, ⟨defaults, more⟩, -, _, -, -, rfl, -⟩ :=
    loaded
  rfl

/-- The default methods along x and y reach no further than the guard cells. -/
theorem default_width (loaded : Mesh.load source o endpoint = .ok (m, messages)) {axis : Axis} (across : axis ≠ .z)
    {kind : Kind} (checked : kind ∈ [Kind.first, Kind.second, Kind.upwind, Kind.flux]) {k : Kernel α}
    (resolved : m.defaults.resolve axis ⟨kind, false⟩ .standard = .ok k) : (k.width : Int) ≤ m.guards axis := by
  obtain ⟨-, -, fits, -⟩ := load_reads loaded
  have sides : axis ∈ [Axis.x, Axis.y] := by cases axis <;> simp at across ⊢
  have guards : (if axis = .x then m.shape.mxg else m.shape.myg) = m.guards axis := by
    cases axis with
    | x => rfl
    | y => rfl
    | z => exact absurd rfl across
  have passed := forM_ok (forM_ok fits sides) checked
  rw [resolved] at passed
  by_contra beyond
  change (if _ then _ else _) = _ at passed
  rw [if_pos (by omega)] at passed
  cases passed

/-- The default methods need guard cells on every side. -/
theorem load_guards (loaded : Mesh.load source o endpoint = .ok (m, messages)) :
    1 ≤ m.shape.mxg ∧ 1 ≤ m.shape.myg := by
  obtain ⟨-, -, fits, -⟩ := load_reads loaded
  have some_ (axis : Axis) (across : axis ≠ .z) (member : axis ∈ [Axis.x, Axis.y]) : 1 ≤ m.guards axis := by
    have first := forM_ok (forM_ok fits member) List.mem_cons_self
    cases resolved : (m.defaults.resolve axis ⟨.first, false⟩ .standard : Except Error (Kernel α)) with
    | error e =>
      rw [resolved] at first
      cases first
    | ok k =>
      obtain ⟨own, -, along⟩ := Kernel.lookup_ok resolved
      have reach : 1 ≤ k.width := (Kernel.of?_width own).resolve_left (mt along across)
      have := default_width loaded across (by simp) resolved
      omega
  exact ⟨some_ .x (by decide) (by simp), some_ .y (by decide) (by simp)⟩

end Mesh

end HaloMesh
