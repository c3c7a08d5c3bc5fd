import HaloMesh.Proofs.HaloSides
import HaloMesh.Proofs.PhasedExchange

/-! One phase of an exchange over all ranks. What a rank hears on a side is what the rank across has sent
there, so every guard column gets the line that the rank across holds in its place. -/

namespace HaloMesh
open Transport

variable {α : Type}

/-- A message brings lines for each of a number of fields, as columns of a block. -/
structure Block.Carries (b : Block) (message : Array α) (size depth : Nat) (contents : List (Int → Int → List α)) :
    Prop where
  values : message.toList = b.message contents
  count : contents.length = size
  lengths : ∀ lines ∈ contents, ∀ x y, b.Contains x y → (lines x y).length = depth

variable [Scalar α]

namespace Mesh

/-- A line as it is put into a guard column, turned if it has crossed a branch cut. -/
def received (m : Mesh α) (turn x : Int) (line : List α) : List α := if turn = 0 then line else m.turnLine turn x line

theorem afterPhase_lines {l : Layout α} {i : Nat} {m : Mesh α} (given : l.Assigns i m) (room : m.HasRoom)
    {staged : List (Field α)} (shaped : ∀ f ∈ staged, f.extents = m.extents) (heard : List (Heard α))
    (sided : ∀ h ∈ heard, ∃ side, h.1.leg = m.leg side) (contents : Heard α → List (Int → Int → List α))
    (reads : ∀ h ∈ heard, h.1.leg.target.Carries h.2 staged.length l.shape.nz.toNat (contents h)) :
    (m.afterPhase staged heard).length = staged.length ∧
      ∀ (k : Nat) (f : Field α), staged[k]? = some f → ∃ g, (m.afterPhase staged heard)[k]? = some g ∧ Field.Alike f g ∧
        (∀ x y, f.HasColumn x y → (∀ h ∈ heard, ¬ h.1.leg.target.Contains x y) → g.line x y = f.line x y) ∧
        ∀ h ∈ heard, ∀ x y, h.1.leg.target.Contains x y → (∀ h' ∈ heard, h'.1.leg.target.Contains x y → h' = h) →
          g.line x y = m.received h.1.leg.turn x ((contents h).getD k (fun _ _ => []) x y) := by
  let arrival (h : Heard α) : Arrival α := ⟨arrived m.rank staged h, contents h⟩
  have words := Layout.inWords_of_room given room
  have depth : m.extents.nz = l.shape.nz := Layout.localNz_eq given
  have within (h : Heard α) (member : h ∈ heard) (f : Field α) (among : f ∈ staged) : h.1.leg.target.Within f := by
    obtain ⟨side, same⟩ := sided h member
    rw [same, show (m.leg side).target = l.targetBlock i side from (Layout.blocks_eq words given side).2]
    exact Layout.target_within given room (shaped f among) side
  have placed : m.afterPhase staged heard = m.place staged ((heard.map arrival).map Arrival.expected) := by
    rw [afterPhase, List.map_map]
    rfl
  obtain ⟨length, lines⟩ := m.place_lines (e := m.extents) (heard.map arrival)
    (fun f member => Layout.ofShape_of_room given room (shaped f member))
    (fun a member f among => by
      obtain ⟨h, inside, rfl⟩ := List.mem_map.mp member
      exact within h inside f among)
    (fun a member => by
      obtain ⟨h, inside, rfl⟩ := List.mem_map.mp member
      obtain ⟨values, count, lengths⟩ := reads h inside
      exact ⟨values, count, depth ▸ lengths⟩)
  rw [placed]
  refine ⟨length, fun k f found => ?_⟩
  obtain ⟨g, found', alike, values⟩ := lines k f found
  refine ⟨g, found', alike, fun x y has outside => ?_, fun h member x y inside only => ?_⟩
  · rw [values x y has]
    apply Arrival.foldl_leaves_of_not m k x y _ _
    intro a among
    obtain ⟨h, member, rfl⟩ := List.mem_map.mp among
    exact outside h member
  · rw [values x y (within h member f (List.mem_of_getElem? found) x y inside),
      Arrival.foldl_leaves m k x y _ _ (a := arrival h) (List.mem_map_of_mem member) inside]
    · exact if_pos inside
    · intro b among holds
      obtain ⟨h', member', rfl⟩ := List.mem_map.mp among
      rw [only h' member' holds]

section Heard

variable {l : Layout α} {i : Nat} {m : Mesh α} {staged : List (Field α)} {sides : List Side} {heard : List (Heard α)}

omit [Scalar α] in
theorem HeardAll.on_side (all : HeardAll (sides.map m.leg) staged heard) {h : Heard α} (member : h ∈ heard) :
    ∃ side ∈ sides, h.1.leg = m.leg side ∧ m.neighbour? side = some h.1.neighbour := by
  have talks : (h.1.leg, h.1.neighbour) ∈ talking (sides.map m.leg) := by
    rw [← all.sides, List.map_map]
    exact List.mem_map_of_mem member
  obtain ⟨leg, among, found⟩ := List.mem_filterMap.mp talks
  obtain ⟨side, inside, rfl⟩ := List.mem_map.mp among
  simp only [Option.ite_none_left_eq_some, Option.map_eq_some_iff, Prod.mk.injEq] at found
  obtain ⟨-, d, across, same, rfl⟩ := found
  exact ⟨side, inside, same.symm, across⟩

variable (given : l.Assigns i m) (room : m.HasRoom) (shaped : ∀ f ∈ staged, f.extents = m.extents)
  (all : HeardAll (sides.map m.leg) staged heard)
include given room shaped all

/-- Whatever arrives in the expected length can be read as lines, and these are put into the guard columns of
the sides where it was heard. -/
theorem afterPhase_heard : ∃ contents : Heard α → List (Int → Int → List α),
    (∀ h ∈ heard, h.1.leg.target.Carries h.2 staged.length l.shape.nz.toNat (contents h)) ∧
    (m.afterPhase staged heard).length = staged.length ∧
      ∀ (k : Nat) (f : Field α), staged[k]? = some f → ∃ g, (m.afterPhase staged heard)[k]? = some g ∧ Field.Alike f g ∧
        (∀ x y, f.HasColumn x y → (∀ h ∈ heard, ¬ h.1.leg.target.Contains x y) → g.line x y = f.line x y) ∧
        ∀ h ∈ heard, ∀ x y, h.1.leg.target.Contains x y → (∀ h' ∈ heard, h'.1.leg.target.Contains x y → h' = h) →
          g.line x y = m.received h.1.leg.turn x ((contents h).getD k (fun _ _ => []) x y) := by
  have points (f : Field α) (member : f ∈ staged) : f.nz = l.shape.nz.toNat := by
    have depth := (Layout.sizes_eq given room (shaped f member)).2.2
    omega
  have readable (h : Heard α) : ∃ contents : List (Int → Int → List α), h ∈ heard →
      h.1.leg.target.Carries h.2 staged.length l.shape.nz.toNat contents := by
    by_cases member : h ∈ heard
    · have size : h.2.toList.length = staged.length * (h.1.leg.target.columns.length * l.shape.nz.toNat) := by
        rw [Array.length_toList, all.sizes h member, Block.size_eq staged points]
      obtain ⟨contents, count, lengths, same⟩ := Block.exists_contents _ _ _ _ size
      exact ⟨contents, fun _ => ⟨same, count, lengths⟩⟩
    · exact ⟨[], fun within => absurd within member⟩
  choose contents reads using readable
  refine ⟨contents, reads, afterPhase_lines given room shaped heard (fun h member => ?_)
    contents reads⟩
  obtain ⟨side, -, leg, -⟩ := all.on_side member
  exact ⟨side, leg⟩

theorem afterPhase_kept : (m.afterPhase staged heard).length = staged.length ∧
    ∀ (k : Nat) (f : Field α), staged[k]? = some f → ∃ g, (m.afterPhase staged heard)[k]? = some g ∧ Field.Alike f g ∧
      ∀ x y, f.HasColumn x y → ¬ m.Seam x y → g.line x y = f.line x y := by
  have words := Layout.inWords_of_room given room
  obtain ⟨contents, -, length, values⟩ := afterPhase_heard given room shaped all
  refine ⟨length, fun k f found => ?_⟩
  obtain ⟨g, found', alike, kept, -⟩ := values k f found
  refine ⟨g, found', alike, fun x y has unseamed => kept x y has fun h member inside => unseamed ?_⟩
  obtain ⟨side, -, leg, across⟩ := all.on_side member
  rw [Layout.seam_iff words given]
  refine ⟨side, _, across, ?_⟩
  rw [← (Layout.blocks_eq words given side).2]
  rw [leg] at inside
  exact inside

theorem afterPhase_shaped : ∀ g ∈ m.afterPhase staged heard, g.extents = m.extents := by
  obtain ⟨length, once⟩ := afterPhase_kept given room shaped all
  intro g member
  obtain ⟨k, found⟩ := List.getElem?_of_mem member
  have inside : k < staged.length := length ▸ (List.getElem?_eq_some_iff.mp found).1
  obtain ⟨g', found', alike, -⟩ := once k _ (List.getElem?_eq_getElem inside)
  obtain rfl := Option.some.inj (found.symm.trans found')
  rw [← shaped _ (List.getElem_mem inside)]
  simp only [Field.extents, alike.nx, alike.ny, alike.nz]

end Heard

/-! All ranks together. -/

/-- What a rank hears on a side from rank `d` across: the first message there, with the cells that the other
rank sends on its opposite side. -/
def heardOn (meshes : Nat → Mesh α) (staged : Nat → List (Field α)) (i : Nat) (side : Side) (d : Int) : Heard α :=
  (⟨(meshes i).leg side, d, 0⟩, ((meshes d.toNat).sourceBlock side.opposite).pack (staged d.toNat))

def heard (meshes : Nat → Mesh α) (staged : Nat → List (Field α)) (sides : List Side) (i : Nat) : List (Heard α) :=
  sides.filterMap fun side => ((meshes i).neighbour? side).map (heardOn meshes staged i side)

omit [Scalar α] in
theorem mem_heard {meshes : Nat → Mesh α} {staged : Nat → List (Field α)} {sides : List Side} {i : Nat} {h : Heard α} :
    h ∈ heard meshes staged sides i ↔
      ∃ side ∈ sides, ∃ d, (meshes i).neighbour? side = some d ∧ heardOn meshes staged i side d = h := by
  simp only [heard, List.mem_filterMap, Option.map_eq_some_iff]

end Mesh

/-- Groups of as many fields on every rank of a layout, each with the extents of the rank's block. -/
structure Staged (l : Layout α) (meshes : Nat → Mesh α) (size : Nat) (staged : Nat → List (Field α)) : Prop where
  given : ∀ i < l.count, l.Assigns i (meshes i)
  room : ∀ i < l.count, (meshes i).HasRoom
  lengths : ∀ i < l.count, (staged i).length = size
  shaped : ∀ i < l.count, ∀ f ∈ staged i, f.extents = (meshes i).extents

namespace Staged
open Mesh

variable {l : Layout α} {meshes : Nat → Mesh α} {size : Nat} {staged : Nat → List (Field α)} {sides : List Side}
  {i j : Nat} {side : Side}

def brought (l : Layout α) (staged : Nat → List (Field α)) (i j : Nat) (side : Side) : List (Int → Int → List α) :=
  (staged j).map fun f x y => f.line (x + (l.offset i j side).1) (y + (l.offset i j side).2)

omit [Scalar α] in
theorem reads (ready : Staged l meshes size staged) (inside : i < l.count)
    (across : (meshes i).neighbour? side = some (j : Int)) :
    ((meshes i).targetBlock side).Carries ((meshes j).sourceBlock side.opposite |>.pack (staged j)) size
      l.shape.nz.toNat (brought l staged i j side) := by
  have here := ready.given i inside
  have words := Layout.inWords_of_room here (ready.room i inside)
  obtain ⟨k, within, same⟩ := Layout.neighbour_lt here across
  obtain rfl : j = k := by omega
  have there := ready.given j within
  have moved := Layout.source_moved here across
  rw [(Layout.blocks_eq words here side).2, (Layout.blocks_eq words there side.opposite).1]
  refine ⟨?_, ?_, ?_⟩
  · rw [moved, Block.pack_moved]
    rfl
  · rw [brought, List.length_map, ready.lengths j within]
  · intro lines member x y contained
    obtain ⟨f, among, rfl⟩ := List.mem_map.mp member
    have shaped := ready.shaped j within f among
    have room := ready.room j within
    have source : (l.sourceBlock j side.opposite).Contains (x + (l.offset i j side).1) (y + (l.offset i j side).2) := by
      rw [moved]
      simp only [Block.Contains, Block.moved] at contained ⊢
      omega
    have depth := (Layout.sizes_eq there room shaped).2.2
    rw [Field.length_line (Layout.ofShape_of_room there room shaped).2
      (Layout.source_within there room shaped _ _ _ source)]
    omega

omit [Scalar α] in
theorem heardAll (ready : Staged l meshes size staged) (inside : i < l.count)
    (guarded : ∀ side ∈ sides, side ∈ l.shape.xSides ++ l.shape.ySides) :
    HeardAll (sides.map (meshes i).leg) (staged i) (heard meshes staged sides i) := by
  have here := ready.given i inside
  have room := ready.room i inside
  refine ⟨?_, fun h member => ?_⟩
  · rw [Layout.talking_eq (Layout.inWords_of_room here room) here guarded, heard, List.map_map, List.map_filterMap]
    simp only [Option.map_map]
    rfl
  · obtain ⟨side, -, d, across, rfl⟩ := mem_heard.mp member
    obtain ⟨j, -, rfl⟩ := Layout.neighbour_lt here across
    obtain ⟨values, count, lengths⟩ := ready.reads inside across
    have points (f : Field α) (among : f ∈ staged i) : f.nz = l.shape.nz.toNat := by
      have depth := (Layout.sizes_eq here room (ready.shaped i inside f among)).2.2
      omega
    calc (heardOn meshes staged i side j).2.size
        = ((meshes j).sourceBlock side.opposite |>.pack (staged j)).toList.length := by
          rw [Array.length_toList]
          rfl
      _ = size * (((meshes i).targetBlock side).columns.length * l.shape.nz.toNat) := by
          rw [values, Block.length_message _ lengths, count]
      _ = ((meshes i).targetBlock side).size (staged i) := by
          rw [Block.size_eq (staged i) points, ready.lengths i inside]

/-- The effect of one phase on a rank. The guard columns of its sides get the lines of the ranks across, and
all other columns keep theirs. -/
theorem phase_lines (ready : Staged l meshes size staged) (inside : i < l.count) (sides : List Side) :
    ((meshes i).afterPhase (staged i) (heard meshes staged sides i)).length = size ∧
      ∀ (k : Nat) (f : Field α), (staged i)[k]? = some f →
        ∃ g, ((meshes i).afterPhase (staged i) (heard meshes staged sides i))[k]? = some g ∧ Field.Alike f g ∧
          (∀ x y, f.HasColumn x y → (∀ side ∈ sides, ∀ d, (meshes i).neighbour? side = some d →
            ¬ (l.targetBlock i side).Contains x y) → g.line x y = f.line x y) ∧
          ∀ side ∈ sides, ∀ j : Nat, (meshes i).neighbour? side = some (j : Int) →
            ∀ x y, (l.targetBlock i side).Contains x y → ∃ f', (staged j)[k]? = some f' ∧
              g.line x y = (meshes i).received ((meshes i).turnOn side) x
                (f'.line (x + (l.offset i j side).1) (y + (l.offset i j side).2)) := by
  have here := ready.given i inside
  have room := ready.room i inside
  have words := Layout.inWords_of_room here room
  have target (side : Side) : (meshes i).targetBlock side = l.targetBlock i side := (Layout.blocks_eq words here side).2
  let contents (h : Heard α) : List (Int → Int → List α) :=
    brought l staged i h.1.neighbour.toNat (Side.ofTag h.1.leg.sendTag)
  have own (side : Side) (j : Nat) : contents (heardOn meshes staged i side j) = brought l staged i j side := by
    simp only [contents, heardOn, leg, Side.ofTag_tag, Int.toNat_natCast]
  obtain ⟨length, lines⟩ := afterPhase_lines here room (ready.shaped i inside) (heard meshes staged sides i)
    (fun h member => by
      obtain ⟨side, -, d, -, rfl⟩ := mem_heard.mp member
      exact ⟨side, rfl⟩) contents
    (fun h member => by
      obtain ⟨side, -, d, across, rfl⟩ := mem_heard.mp member
      obtain ⟨j, -, rfl⟩ := Layout.neighbour_lt here across
      rw [own, ready.lengths i inside]
      exact ready.reads inside across)
  refine ⟨length.trans (ready.lengths i inside), fun k f found => ?_⟩
  obtain ⟨g, found', alike, kept, filled⟩ := lines k f found
  refine ⟨g, found', alike, fun x y has outside => kept x y has fun h member holds => ?_,
    fun side member j across x y contained => ?_⟩
  · obtain ⟨side, among, d, across, rfl⟩ := mem_heard.mp member
    exact outside side among d across (target side ▸ holds)
  · obtain ⟨other, within, same⟩ := Layout.neighbour_lt here across
    obtain rfl : j = other := by omega
    have among : heardOn meshes staged i side j ∈ heard meshes staged sides i := mem_heard.mpr ⟨side, member, j, across, rfl⟩
    have present : k < (staged j).length := by
      rw [ready.lengths j within, ← ready.lengths i inside]
      exact (List.getElem?_eq_some_iff.mp found).1
    refine ⟨_, List.getElem?_eq_getElem present, ?_⟩
    rw [filled _ among x y (show ((meshes i).targetBlock side).Contains x y from target side ▸ contained), own]
    · simp [brought, heardOn, leg, present]
    · intro h' member' holds
      obtain ⟨side', -, d', across', rfl⟩ := mem_heard.mp member'
      obtain rfl : side' = side :=
        Layout.target_unique inside (show (l.targetBlock i side').Contains x y from target side' ▸ holds) contained
      rw [Option.some.inj (across'.symm.trans across)]

end Staged
end HaloMesh
