import HaloMesh.Proofs.FieldPoints
import HaloMesh.Proofs.HaloFilling
import HaloMesh.Proofs.NumberedPhases

/-! One exchange among many. Its messages have numbers that count the exchanges before it, and other exchanges
may be under way meanwhile. If they are about the same fields, it finds guard cells that are filled already, and
fills them with the same values again. -/

namespace HaloMesh
open Transport Program

variable {α : Type}

namespace Mesh

/-- A message heard under another number. -/
def numbered (n : Nat) (h : Heard α) : Heard α := ({ h.1 with number := n }, h.2)

section Events

variable {meshes : Nat → Mesh α} {staged : Nat → List (Field α)} {sides : List Side} {i kind n : Nat} (rank : Int)
  {parcelsOf : Nat → Nat → List (Parcel (Array α))} (same : parcelsOf kind n = parcels meshes staged sides i)
include same

theorem asked_eq : (((heard meshes staged sides i).map (numbered n)).map Prod.fst).flatMap
    (Posted.events rank (staged i)) = Step.events rank parcelsOf (.ask kind n) := by
  rw [Step.events, same, parcels, List.flatMap_map, List.flatMap_map, List.flatMap_map]
  rfl

theorem got_eq : receiveEvents rank ((heard meshes staged sides i).map (numbered n)) =
    Step.events rank parcelsOf (.get kind n) := by
  rw [Step.events, same, parcels, receiveEvents, List.map_map, List.map_map]
  rfl

end Events

theorem HeardAll.numbered {legs : List Leg} {staged : List (Field α)} {heard : List (Heard α)}
    (all : HeardAll legs staged heard) (n : Nat) : HeardAll legs staged (heard.map (numbered n)) where
  sides := by
    rw [← all.sides, List.map_map, List.map_map, List.map_map]
    rfl
  sizes h member := by
    obtain ⟨h', among, rfl⟩ := List.mem_map.mp member
    exact all.sizes h' among

variable [Scalar α]

private theorem place_congr (m : Mesh α) {β : Type} (first second : β → Expected α)
    (same : ∀ b, (first b).target = (second b).target ∧ (first b).turn = (second b).turn ∧
      (first b).request.buffer = (second b).request.buffer) (items : List β) (staged : List (Field α)) :
    m.place staged (items.map first) = m.place staged (items.map second) := by
  induction items generalizing staged with
  | nil => rfl
  | cons b rest ih =>
    obtain ⟨target, turn, buffer⟩ := same b
    simp only [List.map_cons, place, target, turn, buffer]
    exact ih _

/-- The numbers of messages leave no trace in what they bring. -/
theorem afterPhase_numbered (m : Mesh α) (staged : List (Field α)) (heard : List (Heard α)) (n : Nat) :
    m.afterPhase staged (heard.map (numbered n)) = m.afterPhase staged heard := by
  unfold afterPhase
  rw [List.map_map]
  exact m.place_congr (arrived m.rank staged ∘ numbered n) (arrived m.rank staged) (fun _ => ⟨rfl, rfl, rfl⟩) heard staged

/-- An exchange under way whose x phase has a number. -/
def underway (meshes : Nat → Mesh α) (fields : Nat → List (Field α)) (xOnly : Bool) (n i : Nat) : Exchange α :=
  let posted := ((heard meshes fields (meshes i).shape.xSides i).map (numbered n)).map Prod.fst
  { staged := fields i, xOnly
    sends := List.replicate posted.length settled
    receives := posted.map (Posted.expected (meshes i).rank (fields i)) }

end Mesh

namespace Staged
open Mesh

variable [Scalar α] {l : Layout α} {meshes : Nat → Mesh α} {size : Nat} {fields : Nat → List (Field α)} {i : Nat}
  {parcelsOf : Nat → Nat → List (Parcel (Array α))}

theorem starts (ready : Staged l meshes size fields) (inside : i < l.count) (xOnly : Bool) {n : Nat}
    (columns : parcelsOf 0 n = parcels meshes fields (meshes i).shape.xSides i) :
    Path ((meshes i).startExchange (fields i) xOnly) (Step.events i parcelsOf (.ask 0 n))
      (.finished (.ok (underway meshes fields xOnly n i))) := by
  have here := ready.given i inside
  have rank : (meshes i).rank = i := by rw [Mesh.rank, Layout.rank_eq here]
  have reaches : (meshes i).Reaches (meshes i).xLegs := by
    rw [xLegs_eq]
    exact Layout.reaches_sides here _
  have all := ready.heardAll inside fun side member => List.mem_append_left _ (Layout.shape_eq here ▸ member)
  rw [← xLegs_eq] at all
  refine (startExchange_path reaches (fields i) xOnly _).mpr
    ⟨ready.shaped i inside, _, (all.numbered n).sides, ?_, rfl⟩
  rw [rank, asked_eq _ columns]

/-- An exchange of x guards ends with the messages of its x phase. So does an exchange of no fields. -/
theorem finishes_columns (ready : Staged l meshes size fields) (inside : i < l.count) {xOnly : Bool}
    (last : xOnly = true ∨ size = 0) {n : Nat}
    (columns : parcelsOf 0 n = parcels meshes fields (meshes i).shape.xSides i) :
    Path ((meshes i).finishExchange (underway meshes fields xOnly n i)) (Step.events i parcelsOf (.get 0 n))
      (.finished (.ok (Mesh.afterX meshes fields i))) := by
  have here := ready.given i inside
  have rank : (meshes i).rank = i := by rw [Mesh.rank, Layout.rank_eq here]
  have reaches : (meshes i).Reaches (meshes i).yLegs := by
    rw [yLegs_eq]
    exact Layout.reaches_sides here _
  have all := ready.heardAll inside fun side member => List.mem_append_left _ (Layout.shape_eq here ▸ member)
  refine (finishExchange_path reaches).mpr ⟨_, rfl, (all.numbered n).sizes, .inl ?_⟩
  rw [afterPhase_numbered, rank, got_eq _ columns]
  refine ⟨last.imp_right fun none_ => ?_, rfl, rfl⟩
  apply List.eq_nil_of_length_eq_zero
  exact (ready.afterX.lengths i inside).trans none_

/-- An exchange of some fields asks for its y phase once it has the x guards. -/
theorem finishes_rows (ready : Staged l meshes size fields) (inside : i < l.count) (some_ : size ≠ 0) {n k : Nat}
    (columns : parcelsOf 0 n = parcels meshes fields (meshes i).shape.xSides i)
    (rows : parcelsOf 1 k = parcels meshes (Mesh.afterX meshes fields) (meshes i).shape.ySides i) :
    Path ((meshes i).finishExchange (underway meshes fields false n i))
      (Step.script i parcelsOf [.get 0 n, .ask 1 k, .get 1 k])
      (.finished (.ok (afterY meshes (Mesh.afterX meshes fields) i))) := by
  have here := ready.given i inside
  have rank : (meshes i).rank = i := by rw [Mesh.rank, Layout.rank_eq here]
  have reaches : (meshes i).Reaches (meshes i).yLegs := by
    rw [yLegs_eq]
    exact Layout.reaches_sides here _
  have all := ready.heardAll inside fun side member => List.mem_append_left _ (Layout.shape_eq here ▸ member)
  have all' := ready.afterX.heardAll inside fun side member => List.mem_append_right _ (Layout.shape_eq here ▸ member)
  rw [← yLegs_eq] at all'
  refine (finishExchange_path reaches).mpr ⟨_, rfl, (all.numbered n).sizes, .inr ?_⟩
  rw [afterPhase_numbered]
  refine ⟨rfl, fun none_ => some_ ?_, _, all'.numbered k, ?_, ?_⟩
  · rw [← ready.afterX.lengths i inside, List.length_eq_zero_iff]
    exact none_
  · rw [phaseEvents_split, rank, got_eq _ columns]
    change Step.events i parcelsOf (.get 0 n) ++ (Step.events i parcelsOf (.ask 1 k) ++
      (Step.events i parcelsOf (.get 1 k) ++ [])) = _
    rw [List.append_nil, ← asked_eq _ rows, ← got_eq _ rows]
    rfl
  · rw [afterPhase_numbered]
    rfl

end Staged

/-! Phases that come again. -/

theorem Layout.source_outside {l : Layout α} {i : Nat} (inside : i < l.count) {side other : Side} {x y : Int}
    (phase : tagPhase side.tag.number = tagPhase other.tag.number) (sent : (l.sourceBlock i side).Contains x y) :
    ¬ (l.targetBlock i other).Contains x y := by
  intro kept
  have wide := l.left_range i
  have tall := bottom_range inside
  have guards := l.guards
  cases side <;> cases other <;> first
    | exact absurd phase (by decide)
    | simp only [sourceBlock, targetBlock, Block.Contains] at sent kept
      omega

namespace Passed

variable [Scalar α] {l : Layout α} {meshes : Nat → Mesh α} {sides : List Side} {before middle after after' : Nat → Field α}
  {i : Nat} (given : ∀ i < l.count, l.Assigns i (meshes i))
include given

/-- What a phase makes of fields is fixed by what they are before. -/
theorem unique (first : Passed l meshes sides before after) (second : Passed l meshes sides before after')
    (inside : i < l.count) (fits : (before i).Fits) : after i = after' i := by
  have alike := (second.alike i inside).symm.trans (first.alike i inside)
  refine Field.eq_of_lines ((second.alike i inside).fits fits) alike fun x y has => ?_
  rw [(second.alike i inside).hasColumn] at has
  by_cases guard : ∃ side ∈ sides, ∃ d, (meshes i).neighbour? side = some d ∧ (l.targetBlock i side).Contains x y
  · obtain ⟨side, member, d, across, contained⟩ := guard
    obtain ⟨j, -, rfl⟩ := Layout.neighbour_lt (given i inside) across
    rw [first.filled i inside side member j across x y contained,
      second.filled i inside side member j across x y contained]
  · have outside (side : Side) (member : side ∈ sides) (d : Int) (across : (meshes i).neighbour? side = some d) :
        ¬ (l.targetBlock i side).Contains x y := fun contained => guard ⟨side, member, d, across, contained⟩
    rw [first.kept i inside x y has outside, second.kept i inside x y has outside]

omit [Scalar α] in
theorem sent_from (inside : i < l.count) {side : Side} {j : Nat}
    (across : (meshes i).neighbour? side = some (j : Int)) {x y : Int} (contained : (l.targetBlock i side).Contains x y) :
    j < l.count ∧ (l.sourceBlock j side.opposite).Contains (x + (l.offset i j side).1) (y + (l.offset i j side).2) := by
  obtain ⟨k, within, same⟩ := Layout.neighbour_lt (given i inside) across
  obtain rfl : j = k := by omega
  refine ⟨within, ?_⟩
  rw [Layout.source_moved (given i inside) across]
  simp only [Block.Contains, Block.moved] at contained ⊢
  omega

/-- A phase that comes again changes nothing. -/
theorem again (passed : Passed l meshes sides before after)
    (phase : ∀ side ∈ sides, ∀ other ∈ sides, tagPhase side.opposite.tag.number = tagPhase other.tag.number)
    (columns : ∀ i < l.count, ∀ side, (l.sourceBlock i side).Within (before i)) :
    Passed l meshes sides after after where
  alike i _ := Field.Alike.refl _
  kept _ _ _ _ _ _ := rfl
  filled i inside side member j across x y contained := by
    obtain ⟨within, sent⟩ := sent_from given inside across contained
    rw [passed.filled i inside side member j across x y contained,
      passed.kept j within _ _ (columns j within _ _ _ sent) fun other among _ _ =>
        Layout.source_outside within (phase side member other among) sent]

/-- The guard columns stay filled when the guard rows are filled after them. -/
theorem still_columns (first : Passed l meshes l.shape.xSides middle middle)
    (second : Passed l meshes l.shape.ySides middle after)
    (targets : ∀ i < l.count, ∀ side, (l.targetBlock i side).Within (middle i))
    (sources : ∀ i < l.count, ∀ side, (l.sourceBlock i side).Within (middle i)) :
    Passed l meshes l.shape.xSides after after where
  alike i _ := Field.Alike.refl _
  kept _ _ _ _ _ _ := rfl
  filled i inside side member j across x y contained := by
    obtain ⟨within, sent⟩ := sent_from given inside across contained
    have phase := GridShape.tagPhase_xSides member
    have here : l.shape.myg ≤ y ∧ y < l.shape.myg + l.height i := by
      cases side <;> first
        | exact absurd phase (by decide)
        | simp only [Layout.targetBlock, Block.Contains] at contained
          omega
    have there : l.shape.myg ≤ y + (l.offset i j side).2 ∧ y + (l.offset i j side).2 < l.shape.myg + l.height j := by
      cases side <;> first
        | exact absurd phase (by decide)
        | simp only [Layout.sourceBlock, Side.opposite, Block.Contains] at sent
          omega
    rw [second.keeps_rows inside (targets i inside _ _ _ contained) here.1 here.2,
      second.keeps_rows within (sources j within _ _ _ sent) there.1 there.2,
      first.filled i inside side member j across x y contained]

end Passed

/-- How far the guard cells of a field are filled: not at all, beside the interior rows, or everywhere. -/
inductive Fill where
  | raw
  | columns
  | all
deriving DecidableEq

/-- What an x phase makes of it. -/
def Fill.beside : Fill → Fill
  | raw | columns => columns
  | all => all

/-- The states of one field of each rank. -/
structure Fillings [Scalar α] (l : Layout α) (meshes : Nat → Mesh α) (state : Fill → Nat → Field α) : Prop where
  columns : ∀ fill : Fill, Passed l meshes l.shape.xSides (state fill) (state fill.beside)
  rows : ∀ fill : Fill, Passed l meshes l.shape.ySides (state fill.beside) (state .all)

theorem Fillings.alike [Scalar α] {l : Layout α} {meshes : Nat → Mesh α} {state : Fill → Nat → Field α}
    (fillings : Fillings l meshes state) (fill : Fill) {i : Nat} (inside : i < l.count) :
    Field.Alike (state .raw i) (state fill i) := by
  have first := (fillings.columns .raw).alike i inside
  cases fill with
  | raw => exact Field.Alike.refl _
  | columns => exact first
  | all => exact first.trans ((fillings.rows .raw).alike i inside)

/-- Every field has these states. -/
theorem exists_fillings [Scalar α] {l : Layout α} {meshes : Nat → Mesh α} (given : ∀ i < l.count, l.Assigns i (meshes i))
    (room : ∀ i < l.count, (meshes i).HasRoom) {before : Nat → Field α}
    (shaped : ∀ i < l.count, (before i).extents = (meshes i).extents) :
    ∃ state, Fillings l meshes state ∧ state .raw = before := by
  have ready : Staged l meshes 1 fun i => [before i] :=
    ⟨given, room, fun _ _ => rfl, fun i inside f member => List.mem_singleton.mp member ▸ shaped i inside⟩
  have shape (i : Nat) (inside : i < l.count) := Layout.shape_eq (given i inside)
  have one (staged : Nat → List (Field α)) (whole : ∀ i < l.count, (staged i).length = 1) (i : Nat) :
      ∃ f, i < l.count → staged i = [f] := by
    by_cases inside : i < l.count
    · obtain ⟨f, same⟩ := List.length_eq_one_iff.mp (whole i inside)
      exact ⟨f, fun _ => same⟩
    · exact ⟨before i, fun within => absurd within inside⟩
  choose middle halfway using one _ ready.afterX.lengths
  choose after left using one (Mesh.afterY meshes (Mesh.afterX meshes fun i => [before i])) fun i inside =>
    (ready.afterX.phase_lines inside _).1
  have first : Passed l meshes l.shape.xSides before middle := by
    refine ready.passed _ (k := 0) (fun _ _ => rfl) fun i inside => ?_
    rw [← shape i inside]
    exact congrArg (·[0]?) (halfway i inside)
  have second : Passed l meshes l.shape.ySides middle after := by
    refine ready.afterX.passed _ (k := 0) (fun i inside => ?_) fun i inside => ?_
    · rw [halfway i inside]
      rfl
    · rw [← shape i inside]
      exact congrArg (·[0]?) (left i inside)
  have shapedX (i : Nat) (inside : i < l.count) : (middle i).extents = (meshes i).extents :=
    (first.alike i inside).extents.trans (shaped i inside)
  have sources (i : Nat) (inside : i < l.count) (side : Side) : (l.sourceBlock i side).Within (middle i) :=
    Layout.source_within (given i inside) (room i inside) (shapedX i inside) side
  have firstAgain : Passed l meshes l.shape.xSides middle middle := by
    refine first.again given (fun side member other among => ?_) fun i inside side =>
      Layout.source_within (given i inside) (room i inside) (shaped i inside) side
    rw [GridShape.tagPhase_xSides (GridShape.opposite_xSides member), GridShape.tagPhase_xSides among]
  have secondAgain : Passed l meshes l.shape.ySides after after := by
    refine second.again given (fun side member other among => ?_) sources
    rw [GridShape.tagPhase_ySides (GridShape.opposite_ySides member), GridShape.tagPhase_ySides among]
  have firstStill := firstAgain.still_columns given second
    (fun i inside side => Layout.target_within (given i inside) (room i inside) (shapedX i inside) side) sources
  let state (fill : Fill) : Nat → Field α := match fill with
    | .raw => before
    | .columns => middle
    | .all => after
  refine ⟨state, ⟨fun fill => ?_, fun fill => ?_⟩, rfl⟩
  · cases fill with
    | raw => exact first
    | columns => exact firstAgain
    | all => exact firstStill
  · cases fill with
    | raw | columns => exact second
    | all => exact secondAgain

/-- Both phases together fill all guard cells across which there is a rank. -/
theorem Fillings.filled [Scalar α] {l : Layout α} {meshes : Nat → Mesh α} {state : Fill → Nat → Field α}
    (fillings : Fillings l meshes state) (given : ∀ i < l.count, l.Assigns i (meshes i))
    (room : ∀ i < l.count, (meshes i).HasRoom) (shaped : ∀ i < l.count, (state .raw i).extents = (meshes i).extents) :
    Filled l.count meshes (state .raw) (state .all) := by
  have some_ : 0 < l.count := Nat.mul_pos l.columns.positive l.rows.positive
  have words := Layout.inWords_of_room (given 0 some_) (room 0 some_)
  exact filled_of_phases words given (fun i inside x y => Layout.hasColumn_iff (given i inside) (room i inside) (shaped i inside))
    (fillings.columns .raw) (fillings.rows .raw)

/-! Groups of such fields. -/

/-- A group on one rank. A name stands for one field on every rank. -/
def groupOf (state : Nat → Fill → Nat → Field α) (names : List Nat) (fills : Nat → Fill) (i : Nat) : List (Field α) :=
  names.map fun n => state n (fills n) i

section Groups

variable [Scalar α] {l : Layout α} {meshes : Nat → Mesh α} (given : ∀ i < l.count, l.Assigns i (meshes i))
  (room : ∀ i < l.count, (meshes i).HasRoom) {state : Nat → Fill → Nat → Field α} {names : List Nat}
  (fillings : ∀ n ∈ names, Fillings l meshes (state n))
  (shaped : ∀ n ∈ names, ∀ i < l.count, (state n .raw i).extents = (meshes i).extents)
include given room fillings shaped

theorem groupOf_staged (fills : Nat → Fill) : Staged l meshes names.length (groupOf state names fills) where
  given := given
  room := room
  lengths i _ := by simp [groupOf]
  shaped i inside f member := by
    obtain ⟨n, among, rfl⟩ := List.mem_map.mp member
    exact ((fillings n among).alike (fills n) inside).extents.trans (shaped n among i inside)

omit fillings shaped in
/-- What a phase makes of a group it makes of each field. -/
private theorem groupOf_passes {staged : Nat → List (Field α)} {fills fills' : Nat → Fill}
    (ready : Staged l meshes names.length staged) (same : ∀ i < l.count, staged i = groupOf state names fills i)
    {sides : List Side} (passes : ∀ n ∈ names, Passed l meshes sides (state n (fills n)) (state n (fills' n)))
    {i : Nat} (inside : i < l.count) :
    (meshes i).afterPhase (staged i) (Mesh.heard meshes staged sides i) = groupOf state names fills' i := by
  apply List.ext_getElem?
  intro k
  cases named : names[k]? with
  | none =>
    have beyond := List.getElem?_eq_none_iff.mp named
    rw [List.getElem?_eq_none ((ready.phase_lines inside sides).1.le.trans beyond), groupOf, List.getElem?_map, named]
    rfl
  | some n =>
    have member := List.mem_of_getElem? named
    have held (j : Nat) (within : j < l.count) : (staged j)[k]? = some (state n (fills n) j) := by
      rw [same j within, groupOf, List.getElem?_map, named]
      rfl
    have left (j : Nat) : ∃ f, j < l.count →
        ((meshes j).afterPhase (staged j) (Mesh.heard meshes staged sides j))[k]? = some f := by
      by_cases within : j < l.count
      · obtain ⟨f, found, -⟩ := (ready.phase_lines within sides).2 k _ (held j within)
        exact ⟨f, fun _ => found⟩
      · exact ⟨state n (fills n) j, fun known => absurd known within⟩
    choose now found using left
    have shapedNow := ready.shaped i inside _ (List.mem_of_getElem? (held i inside))
    have fits := (Layout.ofShape_of_room (given i inside) (room i inside) shapedNow).2
    rw [found i inside, (ready.passed sides held found).unique given (passes n member) inside fits, groupOf,
      List.getElem?_map, named]
    rfl

theorem afterX_groupOf {i : Nat} (inside : i < l.count) (fills : Nat → Fill) :
    Mesh.afterX meshes (groupOf state names fills) i = groupOf state names (fun n => (fills n).beside) i := by
  rw [Mesh.afterX, Layout.shape_eq (given i inside)]
  exact groupOf_passes given room (groupOf_staged given room fillings shaped fills) (fun _ _ => rfl)
    (fun n member => (fillings n member).columns (fills n)) inside

theorem afterY_groupOf {i : Nat} (inside : i < l.count) (fills : Nat → Fill) :
    Mesh.afterY meshes (Mesh.afterX meshes (groupOf state names fills)) i = groupOf state names (fun _ => .all) i := by
  rw [Mesh.afterY, Layout.shape_eq (given i inside)]
  exact groupOf_passes given room (groupOf_staged given room fillings shaped fills).afterX
    (fun j within => afterX_groupOf given room fillings shaped within fills)
    (fun n member => (fillings n member).rows (fills n)) inside

end Groups

end HaloMesh
