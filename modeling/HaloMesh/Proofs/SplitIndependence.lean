import HaloMesh.Proofs.GlobalLines
import HaloMesh.Proofs.OptionKeys
import HaloMesh.Proofs.OutstandingHandles
import HaloMesh.Proofs.SharedInterior

/-! Derivatives do not depend on how a grid is split. Two worlds of ranks load one grid, each with its own number of
ranks and of blocks in x, and hold the same globals. Once both have communicated, every derivative that stays on its
axis has the same value in both worlds at every interior point. -/

namespace HaloMesh
open Transport
open Outcome (Both)

variable {α : Type}

/-- The ranks of a world that have loaded a grid work on the blocks of one layout. -/
theorem Layout.of_world [Scalar α] {source : GridSource α} {options : Options α} {count : Nat} {meshes : Nat → Mesh α}
    (populated : 0 < count)
    (loaded : ∀ i < count, ∃ warnings, Mesh.load source options ⟨i, count⟩ = .ok (meshes i, warnings)) :
    ∃ l : Layout α, l.count = count ∧ ∀ i < count, l.Assigns i (meshes i) := by
  obtain ⟨_, loads⟩ := loaded 0 populated
  obtain ⟨l, same, assigned⟩ := Layout.of_load loads
  refine ⟨l, same, fun i inside => ?_⟩
  obtain ⟨_, loads⟩ := loaded i inside
  exact assigned i inside _ _ loads

theorem Layout.extents_room {l : Layout α} {i : Nat} {m : Mesh α} (given : l.Assigns i m) (room : m.HasRoom) :
    (0 ≤ m.extents.nx ∧ 0 ≤ m.extents.ny ∧ 0 ≤ m.extents.nz) ∧
      m.extents.nx * m.extents.ny * m.extents.nz ≤ Index.storageLimit := by
  have words := inWords_of_room given room
  have guards := l.guards
  have wide := l.left_range i
  have tall := bottom_range given.1
  have deep := l.depth
  simp only [Mesh.extents, localNx_eq words given, localNy_eq words given, localNz_eq given]
  exact ⟨by omega, (hasRoom_iff given).mp room⟩

/-- Data on the whole grid, which lives at one place in its cells. -/
structure GlobalData (α : Type) where
  loc : Location
  aligned : Bool
  value : Int → Int → Int → α

variable [Scalar α]

/-- A block has a field with any values over the grid. -/
theorem Layout.exists_field {l : Layout α} {i : Nat} {m : Mesh α} (given : l.Assigns i m) (room : m.HasRoom)
    (loc : Location) (aligned : Bool) (values : Int → Int → Int → α) :
    ∃ f : Field α, f.extents = m.extents ∧ f.loc = loc ∧ f.aligned = aligned ∧
      ∀ x y z, f.HasPoint x y z → f.value x y z = values (m.globalX x) (m.globalY y) z := by
  obtain ⟨positive, fits⟩ := Layout.extents_room given room
  exact Field.exists_of_values m.extents positive fits loc aligned fun x y z => values (m.globalX x) (m.globalY y) z

/-- A field over a block with the lines of global data around every interior point, as far as there are guard cells. -/
structure Mesh.HoldsLines (m : Mesh α) (global : GlobalData α) (f : Field α) : Prop where
  holds : m.Holds f
  loc : f.loc = global.loc
  aligned : f.aligned = global.aligned
  lines : ∀ axis x y z, m.isInterior x y = true → 0 ≤ z → z < m.localNz → ∀ j,
    axis = .z ∨ -m.guards axis ≤ j ∧ j ≤ m.guards axis →
      f.along axis x y z (axis.coordinate x y z + j) =
        m.shape.lineOf global.value axis (m.globalX x) (m.globalY y) z j

/-- Blocks of one grid have the same lines around the points that they share. -/
theorem Mesh.HoldsLines.same {m m' : Mesh α} {global : GlobalData α} {f f' : Field α} (kindred : m.Kindred m')
    (first : m.HoldsLines global f) (second : m'.HoldsLines global f') : m.SameLines m' f f' := by
  have lines (axis : Axis) (x y x' y' z : Int) (shares : m.Shares m' x y x' y') (low : 0 ≤ z) (high : z < m.localNz)
      (j : Int) (near : axis = .z ∨ -m.guards axis ≤ j ∧ j ≤ m.guards axis) :
      f.along axis x y z (axis.coordinate x y z + j) = f'.along axis x' y' z (axis.coordinate x' y' z + j) := by
    obtain ⟨interior, interior', column, row⟩ := shares
    rw [first.lines axis x y z interior low high j near,
      second.lines axis x' y' z interior' low (kindred.points ▸ high) j (kindred.guards_eq axis ▸ near), column, row,
      kindred.shape]
  refine ⟨⟨kindred, first.holds, second.holds, first.loc.trans second.loc.symm, first.aligned.trans second.aligned.symm,
    ?_⟩, lines⟩
  intro x y x' y' z shares low high
  have guards := kindred.guards
  have here := lines .x x y x' y' z shares low high 0 (.inr (by simp only [Mesh.guards]; omega))
  simpa [Field.along, Axis.coordinate] using here

/-- A world of ranks that have loaded a grid. On all of them the same names stand for fields over their blocks, and a
field holds data of the whole grid: in the interior, and in the guard cells beyond the physical boundary. -/
structure Decomposition (source : GridSource α) (options : Options α) (size : Nat) (globals : Nat → GlobalData α) where
  count : Nat
  meshes : Nat → Mesh α
  ranks : Nat → Rank α
  refs : Nat → Nat → FieldRef
  before : Nat → Nat → Field α
  populated : 0 < count
  loaded : ∀ i < count, ∃ warnings, Mesh.load source options ⟨i, count⟩ = .ok (meshes i, warnings)
  room : ∀ i < count, (meshes i).HasRoom
  calls : Collective count meshes ranks (fun i => (List.range size).map (refs i)) size before
  distinct : ∀ i < count, ((List.range size).map (refs i)).Nodup
  located : ∀ i < count, ∀ n < size, (before i n).loc = (globals n).loc ∧ (before i n).aligned = (globals n).aligned
  sampled : ∀ i < count, ∀ n < size, (meshes i).Samples (globals n).value (before i n)

namespace Decomposition

variable {source : GridSource α} {options options' : Options α} {size : Nat} {globals : Nat → GlobalData α}

/-- All ranks at the start of a communication of all fields. -/
def start (d : Decomposition source options size globals) : Situation (Array α) (Outcome Unit × Rank α) :=
  launch d.count d.ranks d.refs [.communicate (List.range size) false]

/-- Every block counts its distance from the separatrix in words. Where it cannot, the block takes the separatrix for
one on its other side. -/
def SeparatrixInWords (d : Decomposition source options size globals) : Prop :=
  ∀ i < d.count, Index.wrap ((d.meshes i).shape.topology.separatrix - (d.meshes i).offsetX) =
    (d.meshes i).shape.topology.separatrix - (d.meshes i).offsetX

/-- What two worlds hold after they have communicated, and the derivatives of it. -/
structure SameDerivatives (first : Decomposition source options size globals)
    (second : Decomposition source options' size globals) (after after' : Nat → Nat → Field α) : Prop where
  /-- Every interior point of the grid is one of a rank of each world. -/
  covers : ∀ g warnings, GridShape.read source options = .ok (g, warnings) → ∀ column row, g.mxg ≤ column →
    column < g.mxg + g.mx → 0 ≤ row → row < g.ny → ∃ i < first.count, ∃ i' < second.count, ∃ x y x' y',
      (first.meshes i).Shares (second.meshes i') x y x' y' ∧
        (first.meshes i).globalX x = column ∧ (first.meshes i).globalY y = row
  /-- Derivatives along an axis fail alike, or have the same values in all points that two ranks share. -/
  derivatives : ∀ i < first.count, ∀ i' < second.count, ∀ n < size, ∀ axis kind place method inc, kind.isFlow = false →
    place.Along axis (after i n).loc → Both ((first.meshes i).SameInterior (second.meshes i'))
      ((first.meshes i).derivative axis kind (after i n) place method inc)
      ((second.meshes i').derivative axis kind (after' i' n) place method inc)
  /-- They do not fail if the method is there and fits into the guard cells. -/
  derivable : ∀ i < first.count, ∀ n < size, ∀ axis kind place method inc p k, kind.isFlow = false →
    place.Along axis (after i n).loc → (first.meshes i).plan axis (after i n).loc place = .ok p →
    (first.meshes i).kernel axis ⟨kind, p.staggered⟩ method = .ok k →
    ∃ d, (first.meshes i).derivative axis kind (after i n) place method inc = .ok d
  flows : ∀ i < first.count, ∀ i' < second.count, ∀ v < size, ∀ n < size, ∀ axis kind place method, kind.isFlow = true →
    Both ((first.meshes i).SameInterior (second.meshes i'))
      ((first.meshes i).flow axis kind (after i v) (after i n) place method)
      ((second.meshes i').flow axis kind (after' i' v) (after' i' n) place method)
  /-- The split method also needs the default methods that it is put together from. -/
  flowing : ∀ i < first.count, ∀ v < size, ∀ n < size, ∀ axis kind place method plan k, kind.isFlow = true →
    (first.meshes i).flowPlan axis (after i v) (after i n) place = .ok plan →
    (first.meshes i).kernel axis ⟨kind, plan.1⟩ method = .ok k →
    (k.isSplit = true → (after i v).aligned = (after i n).aligned ∧ ∃ upwind slope,
      (first.meshes i).kernel axis ⟨.upwind, plan.1⟩ .standard = .ok upwind ∧
        (first.meshes i).kernel axis ⟨.first, plan.1⟩ .standard = .ok slope) →
    ∃ d, (first.meshes i).flow axis kind (after i v) (after i n) place method = .ok d

/-- Communication ends on all ranks, and around every interior point the fields then hold the lines of the grid. -/
theorem communicates (d : Decomposition source options size globals) (straight : options.flag "TwistShift" false = false)
    (words : d.SeparatrixInWords) : ∃ (stores : Nat → Store α) (after : Nat → Nat → Field α),
      EndsIn d.start (fun i => (.ok (), { d.ranks i with store := stores i })) ∧
      (∀ i < d.count, Stored (d.refs i) size (after i) (d.ranks i).store (stores i)) ∧
      ∀ i < d.count, ∀ n < size, (d.meshes i).HoldsLines (globals n) (after i n) := by
  obtain ⟨count, meshes, ranks, refs, before, populated, loaded, room, calls, distinct, located, sampled⟩ := d
  change ∀ i < count, _ at words
  obtain ⟨l, rfl, given⟩ := Layout.of_world populated loaded
  obtain ⟨state, crew, raw, held⟩ := calls.crew given room distinct
  obtain ⟨stores, ended, stored⟩ := crew.ends calls.own held (Action.settled_communicate (List.range size) false)
    fun e member n among => by
      obtain rfl := List.mem_singleton.mp member
      exact List.mem_range.mp among
  have all (n : Nat) (within : n < size) :
      fillAfter (Action.exchanges [.communicate (List.range size) false]) n = .all :=
    fillAfter_eq_all.mpr ⟨_, List.mem_singleton_self _, List.mem_range.mpr within, rfl⟩
  refine ⟨stores, fun i n => state n .all i, ended, fun i inside => ⟨fun n within => ?_, (stored i inside).others⟩,
    fun i inside n within => ?_⟩
  · rw [(stored i inside).named n within, all n within]
  · have here := given i inside
    have alike := (crew.fillings n within).alike .all inside
    rw [raw n within i] at alike
    have holds := (Layout.holds here (room i inside) (calls.shaped i inside n within)).of_alike alike
    obtain ⟨loc, aligned⟩ := located i inside n within
    refine ⟨holds, alike.loc.trans loc, alike.aligned.trans aligned, fun axis x y z interior low high j near => ?_⟩
    obtain ⟨⟨_, read⟩, -, -, points⟩ := Mesh.load_reads (loaded i inside).choose_spec
    have shape := Layout.shape_eq here
    have word := words i inside
    rw [shape, (Layout.offset_eq here).1] at word
    rw [shape] at read points ⊢
    exact along_lineOf given room (crew.shaped n within)
      ((crew.fillings n within).filled given room (crew.shaped n within))
      (fun k known => by rw [raw n within k]; exact sampled k known n within) inside
      ((GridShape.twistShift_eq read).trans straight) word interior ⟨low, points ▸ high⟩ axis near

/-- Every interior point of the grid lies in the block of some rank. -/
theorem owner (d : Decomposition source options size globals) {g : GridShape α} {warnings : List String}
    (read : GridShape.read source options = .ok (g, warnings)) {column row : Int} (left : g.mxg ≤ column)
    (right : column < g.mxg + g.mx) (low : 0 ≤ row) (high : row < g.ny) : ∃ i < d.count, ∃ x y,
      (d.meshes i).isInterior x y = true ∧ (d.meshes i).globalX x = column ∧ (d.meshes i).globalY y = row := by
  obtain ⟨count, meshes, ranks, refs, before, populated, loaded, room, -, -, -, -⟩ := d
  obtain ⟨_, loads⟩ := loaded 0 populated
  obtain ⟨l, rfl, given⟩ := Layout.of_world populated loaded
  have words := Layout.inWords_of_room (given 0 populated) (room 0 populated)
  obtain ⟨⟨_, read'⟩, -⟩ := Mesh.load_reads loads
  rw [Layout.shape_eq (given 0 populated), read] at read'
  obtain rfl : g = l.shape := (Prod.mk.inj (Except.ok.inj read')).1
  obtain ⟨⟨i, x, y⟩, ⟨inside, interior⟩, place⟩ :=
    (Layout.cells_bijOn words given).surjOn (a := (column, row)) ⟨⟨left, right⟩, low, high⟩
  obtain ⟨onColumn, onRow⟩ := Prod.mk.inj place
  exact ⟨i, inside, x, y, interior, onColumn, onRow⟩

/-- Blocks of the two worlds belong to one grid. -/
theorem kindred (first : Decomposition source options size globals) (second : Decomposition source options' size globals)
    (same : Options.SameBut "NXPE" options options') {i i' : Nat} (inside : i < first.count) (inside' : i' < second.count) :
    (first.meshes i).Kindred (second.meshes i') := by
  obtain ⟨_, loads⟩ := first.loaded i inside
  obtain ⟨_, loads'⟩ := second.loaded i' inside'
  obtain ⟨⟨_, read⟩, ⟨_, chosen⟩, -, points⟩ := Mesh.load_reads loads
  obtain ⟨⟨_, read'⟩, ⟨_, chosen'⟩, -, points'⟩ := Mesh.load_reads loads'
  obtain ⟨grid, methods⟩ := same.reads source
  rw [grid, read'] at read
  rw [methods, chosen'] at chosen
  have shape := (Prod.mk.inj (Except.ok.inj read)).1.symm
  exact ⟨shape, (Prod.mk.inj (Except.ok.inj chosen)).1.symm, Mesh.load_guards loads, by rw [points, points', shape]⟩

/-- Wherever the separatrix of a grid is a column of it, or beyond its last, all blocks count in words. -/
theorem separatrixInWords (d : Decomposition source options size globals)
    (within : ∀ i < d.count, 0 ≤ (d.meshes i).shape.topology.separatrix ∧
      (d.meshes i).shape.topology.separatrix < Text.wordEnd) : d.SeparatrixInWords := by
  intro i inside
  obtain ⟨low, high⟩ := within i inside
  obtain ⟨l, same, given⟩ := Layout.of_world d.populated d.loaded
  have here := given i inside
  have words := Layout.inWords_of_room here (d.room i inside)
  have offset := (Layout.offset_eq here).1
  have wide := l.left_range i
  have guards := l.guards
  have columns := words.columns
  apply Index.wrap_of_fits <;> rw [offset] <;> omega

/-- Data of the whole grid can be given to the ranks of every world that loads it. -/
theorem exists_of_load (size : Nat) (globals : Nat → GlobalData α) {count : Nat} {meshes : Nat → Mesh α}
    (populated : 0 < count)
    (loaded : ∀ i < count, ∃ warnings, Mesh.load source options ⟨i, count⟩ = .ok (meshes i, warnings))
    (room : ∀ i < count, (meshes i).HasRoom) :
    ∃ d : Decomposition source options size globals, d.count = count ∧ d.meshes = meshes := by
  obtain ⟨l, rfl, assigned⟩ := Layout.of_world populated loaded
  have field (i : Nat) (inside : i < l.count) (n : Nat) : ∃ f : Field α, f.extents = (meshes i).extents ∧
      f.loc = (globals n).loc ∧ f.aligned = (globals n).aligned ∧ (meshes i).Samples (globals n).value f := by
    obtain ⟨f, shaped, loc, aligned, values⟩ := Layout.exists_field (assigned i inside) (room i inside) (globals n).loc
      (globals n).aligned (globals n).value
    exact ⟨f, shaped, loc, aligned, fun x y z has _ => values x y z has⟩
  have : Nonempty (Field α) := ⟨(field 0 populated 0).choose⟩
  choose! fields given using field
  refine ⟨⟨l.count, meshes, fun i => { Rank.ofMesh (meshes i) [] with store := ⟨((List.range size).map (fields i)).toArray⟩ },
    fun _ => FieldRef.mk, fields, populated, loaded, room,
    ⟨fun _ _ => rfl, fun _ _ => by simp, fun i _ k ref named => ?_, fun i inside n _ => (given i inside n).1⟩,
    fun _ _ => ?_, fun i inside n _ => ?_, fun i inside n _ => (given i inside n).2.2.2⟩, rfl, rfl⟩
  · rw [List.getElem?_map, Option.map_eq_some_iff] at named
    obtain ⟨n, found, rfl⟩ := named
    obtain ⟨within, rfl⟩ := List.getElem?_eq_some_iff.mp found
    simp at within
    simp [Store.get?, within]
  · exact List.nodup_range.map fun _ _ same => by injection same
  · exact ⟨(given i inside n).2.1, (given i inside n).2.2.1⟩

end Decomposition

open Decomposition

/-- Index derivatives do not depend on how a grid is split. Two worlds whose settings differ at most in the number of
blocks in x, and whose fields hold the same data of the whole grid, have the same derivatives at all interior points
once they have communicated. -/
theorem derivatives_independent_of_split (source : GridSource α) {options options' : Options α}
    (same : Options.SameBut "NXPE" options options') (straight : options.flag "TwistShift" false = false) {size : Nat}
    {globals : Nat → GlobalData α} (first : Decomposition source options size globals)
    (second : Decomposition source options' size globals) (words : first.SeparatrixInWords)
    (words' : second.SeparatrixInWords) :
    ∃ (stores stores' : Nat → Store α) (after after' : Nat → Nat → Field α),
      EndsIn first.start (fun i => (.ok (), { first.ranks i with store := stores i })) ∧
      EndsIn second.start (fun i => (.ok (), { second.ranks i with store := stores' i })) ∧
      (∀ i < first.count, Stored (first.refs i) size (after i) (first.ranks i).store (stores i)) ∧
      (∀ i < second.count, Stored (second.refs i) size (after' i) (second.ranks i).store (stores' i)) ∧
      SameDerivatives first second after after' := by
  have straight' : options'.flag "TwistShift" false = false := by
    have setting := same "TwistShift" (by decide +kernel)
    unfold Options.flag at straight ⊢
    rw [← setting]
    exact straight
  obtain ⟨stores, after, ended, stored, lines⟩ := first.communicates straight words
  obtain ⟨stores', after', ended', stored', lines'⟩ := second.communicates straight' words'
  have agree (i : Nat) (inside : i < first.count) (i' : Nat) (inside' : i' < second.count) (n : Nat) (within : n < size) :
      (first.meshes i).SameLines (second.meshes i') (after i n) (after' i' n) :=
    Mesh.HoldsLines.same (first.kindred second same inside inside') (lines i inside n within) (lines' i' inside' n within)
  refine ⟨stores, stores', after, after', ended, ended', stored, stored', ?_, ?_, ?_, ?_, ?_⟩
  · intro g warnings read column row left right low high
    obtain ⟨i, inside, x, y, interior, onColumn, onRow⟩ := first.owner read left right low high
    rw [(same.reads source).1] at read
    obtain ⟨i', inside', x', y', interior', onColumn', onRow'⟩ := second.owner read left right low high
    exact ⟨i, inside, i', inside', x, y, x', y',
      ⟨interior, interior', onColumn.trans onColumn'.symm, onRow.trans onRow'.symm⟩, onColumn, onRow⟩
  · intro i inside i' inside' n within axis kind place method inc plain along
    exact ((agree i inside i' inside' n within).derivative plain fun p planned => Mesh.plan_along along planned).mono
      fun _ _ values => values.interior
  · intro i inside n within axis kind place method inc p k plain along planned made
    obtain ⟨input, result⟩ := Mesh.plan_along along planned
    obtain ⟨d, computed, -⟩ := Mesh.derivative_total (lines i inside n within).holds planned input result made plain
    exact ⟨d, computed⟩
  · intro i inside i' inside' v among n within axis kind place method flow
    exact ((agree i inside i' inside' v among).flow (agree i inside i' inside' n within) flow).mono
      fun _ _ values => values.interior
  · intro i inside v among n within axis kind place method plan k flow planned made parts
    have velocity := (lines i inside v among).holds
    have holds := (lines i inside n within).holds
    exact Mesh.flow_total holds (velocity.shaped.trans holds.shaped.symm) velocity.fits planned made flow parts

/-! The single null on eight ranks, which split x in two, and on four that do not. -/

def slopingData (n : Nat) : GlobalData Whole :=
  ⟨.centre, false, fun column row _ => ⟨10 * column + row + n⟩⟩

theorem load_singleNull_rows (i : Nat) (inside : i < 4) :
    ∃ m, Mesh.load singleNullSource Options.empty ⟨i, 4⟩ = .ok (m, []) ∧ m.HasRoom := by
  have settle : singleNullShape.settleSplit Options.empty 4 = .ok 1 := by
    simp only [GridShape.settleSplit, Options.isSet_empty]
    rfl
  interval_cases i
  all_goals
    refine ⟨_, Mesh.load_of_steps read_singleNull settle rfl rfl rfl rfl rfl rfl defaults_empty rfl transformName_empty, ?_⟩
    decide

theorem singleNull_world {count : Nat} (populated : 0 < count)
    (loads : ∀ i : Nat, i < count → ∃ m, Mesh.load singleNullSource Options.empty ⟨i, count⟩ = .ok (m, []) ∧ m.HasRoom) :
    ∃ d : Decomposition singleNullSource Options.empty 2 slopingData, d.count = count ∧ d.SeparatrixInWords := by
  have : Nonempty (Mesh Whole) := ⟨(loads 0 populated).choose⟩
  choose! meshes loaded room using loads
  obtain ⟨d, rfl, rfl⟩ := Decomposition.exists_of_load 2 slopingData populated (fun i inside => ⟨[], loaded i inside⟩) room
  refine ⟨d, rfl, d.separatrixInWords fun i inside => ?_⟩
  obtain ⟨⟨_, read⟩, -⟩ := Mesh.load_reads (loaded i inside)
  rw [read_singleNull] at read
  have shape : singleNullShape = (d.meshes i).shape := (Prod.mk.inj (Except.ok.inj read)).1
  rw [← shape]
  decide

theorem singleNull_split_independent : ∃ first second : Decomposition singleNullSource Options.empty 2 slopingData,
    first.count = 8 ∧ second.count = 4 ∧
    ∃ (stores stores' : Nat → Store Whole) (after after' : Nat → Nat → Field Whole),
      EndsIn first.start (fun i => (.ok (), { first.ranks i with store := stores i })) ∧
      EndsIn second.start (fun i => (.ok (), { second.ranks i with store := stores' i })) ∧
      (∀ i < first.count, Stored (first.refs i) 2 (after i) (first.ranks i).store (stores i)) ∧
      (∀ i < second.count, Stored (second.refs i) 2 (after' i) (second.ranks i).store (stores' i)) ∧
      SameDerivatives first second after after' := by
  obtain ⟨first, eight, words⟩ := singleNull_world (show 0 < 8 by decide) fun i inside => by
    obtain ⟨m, loaded, room, -⟩ := load_singleNull_block i inside
    exact ⟨m, loaded, room⟩
  obtain ⟨second, four, words'⟩ := singleNull_world (by decide) load_singleNull_rows
  exact ⟨first, second, eight, four, derivatives_independent_of_split singleNullSource (fun _ _ => rfl)
    (Options.flag_empty "TwistShift" false) first second words words'⟩

end HaloMesh
