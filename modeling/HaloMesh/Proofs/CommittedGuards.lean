import HaloMesh.Proofs.HaloPhase
import HaloMesh.Proofs.StoredFields

/-! The guard cells that a successful exchange leaves. On every side with a rank across they hold the lines of
one message, and this message was claimed and received by the exchange itself. -/

namespace HaloMesh
open Transport Program

variable {α : Type} [Scalar α]

namespace Mesh

/-- The guard columns of a side hold given lines, turned if they have crossed a branch cut. -/
def Shows (m : Mesh α) (side : Side) (lines : Int → Int → List α) (f : Field α) : Prop :=
  ∀ x y, (m.targetBlock side).Contains x y → f.line x y = m.received (m.turnOn side) x (lines x y)

omit [Scalar α] in
theorem leg_injective {m : Mesh α} {side other : Side} (same : m.leg side = m.leg other) : side = other := by
  have tags : side.tag = other.tag := congrArg Leg.sendTag same
  rw [← side.ofTag_tag, tags, Side.ofTag_tag]

section Phase

variable {l : Layout α} {i : Nat} {m : Mesh α} {staged : List (Field α)} {sides : List Side} {heard : List (Heard α)}
  {side : Side} {d : Int} (given : l.Assigns i m) (room : m.HasRoom)
  (guarded : ∀ side ∈ sides, side ∈ l.shape.xSides ++ l.shape.ySides) (nodup : sides.Nodup)
  (all : HeardAll (sides.map m.leg) staged heard)
include given room guarded nodup all

omit [Scalar α] in
theorem HeardAll.unique (member : side ∈ sides) (across : m.neighbour? side = some d) :
    ∃ h ∈ heard, h.1.leg = m.leg side ∧ h.1.neighbour = d ∧ ∀ h' ∈ heard, h'.1.leg = m.leg side → h' = h := by
  have pairs := all.sides
  rw [Layout.talking_eq (Layout.inWords_of_room given room) given guarded, List.map_map] at pairs
  have distinct : (heard.map ((fun t : Posted => (t.leg, t.neighbour)) ∘ Prod.fst)).Nodup := by
    rw [pairs]
    apply nodup.filterMap
    intro first second pair here there
    obtain ⟨_, -, rfl⟩ := Option.map_eq_some_iff.mp here
    obtain ⟨_, -, same⟩ := Option.map_eq_some_iff.mp there
    exact (leg_injective (Prod.mk.inj same).1).symm
  have talks : (m.leg side, d) ∈ heard.map ((fun t : Posted => (t.leg, t.neighbour)) ∘ Prod.fst) := by
    rw [pairs, List.mem_filterMap]
    exact ⟨side, member, by rw [across]; rfl⟩
  obtain ⟨h, among, same⟩ := List.mem_map.mp talks
  obtain ⟨leg, neighbour⟩ := Prod.mk.inj same
  refine ⟨h, among, leg, neighbour, fun h' among' leg' => ?_⟩
  obtain ⟨other, -, found, across'⟩ := all.on_side among'
  obtain rfl := leg_injective (found.symm.trans leg')
  have neighbour' : h'.1.neighbour = d := Option.some.inj (across'.symm.trans across)
  exact List.inj_on_of_nodup_map distinct among' among
    (Prod.ext (leg'.trans leg.symm) (neighbour'.trans neighbour.symm))

variable (shaped : ∀ f ∈ staged, f.extents = m.extents)
include shaped

theorem afterPhase_shows (member : side ∈ sides) (across : m.neighbour? side = some d) :
    ∃ h ∈ heard, h.1.leg = m.leg side ∧ h.1.neighbour = d ∧ ∃ contents : List (Int → Int → List α),
      (m.targetBlock side).Carries h.2 staged.length l.shape.nz.toNat contents ∧
      ∀ (k : Nat) (f : Field α), staged[k]? = some f → ∃ g, (m.afterPhase staged heard)[k]? = some g ∧ Field.Alike f g ∧
        m.Shows side (contents.getD k fun _ _ => []) g := by
  have words := Layout.inWords_of_room given room
  have target (side : Side) := (Layout.blocks_eq words given side).2
  obtain ⟨h, among, leg, neighbour, only⟩ := all.unique given room guarded nodup member across
  obtain ⟨contents, reads, -, values⟩ := afterPhase_heard given room shaped all
  have own : h.1.leg.target = m.targetBlock side := by rw [leg]; rfl
  refine ⟨h, among, leg, neighbour, contents h, own ▸ reads h among, fun k f found => ?_⟩
  obtain ⟨g, found', alike, -, filled⟩ := values k f found
  refine ⟨g, found', alike, fun x y inside => ?_⟩
  have turn : h.1.leg.turn = m.turnOn side := by rw [leg]; rfl
  rw [← turn]
  refine filled h among x y (own ▸ inside) fun h' among' inside' => only h' among' ?_
  -- the blocks of different sides have no column in common
  obtain ⟨other, -, leg', -⟩ := all.on_side among'
  rw [leg', show (m.leg other).target = l.targetBlock i other from target other] at inside'
  rw [target] at inside
  rw [leg', Layout.target_unique given.1 inside' inside]

omit guarded nodup in
theorem afterPhase_elsewhere (apart : side ∉ sides) {lines : Int → Int → List α} (k : Nat) (f : Field α)
    (found : staged[k]? = some f) (shows : m.Shows side lines f) :
    ∃ g, (m.afterPhase staged heard)[k]? = some g ∧ Field.Alike f g ∧ m.Shows side lines g := by
  have words := Layout.inWords_of_room given room
  have target (side : Side) := (Layout.blocks_eq words given side).2
  obtain ⟨contents, -, -, values⟩ := afterPhase_heard given room shaped all
  obtain ⟨g, found', alike, kept, -⟩ := values k f found
  refine ⟨g, found', alike, fun x y inside => ?_⟩
  have here := target side ▸ inside
  rw [← shows x y inside]
  refine kept x y (Layout.target_within given room (shaped f (List.mem_of_getElem? found)) side x y here)
    fun h among inside' => apart ?_
  obtain ⟨other, member, leg, -⟩ := all.on_side among
  rw [leg, show (m.leg other).target = l.targetBlock i other from target other] at inside'
  rw [Layout.target_unique given.1 here inside']
  exact member

end Phase

omit [Scalar α] in
private theorem heard_events {m : Mesh α} {staged : List (Field α)} {heard : List (Heard α)} {h : Heard α} {side : Side}
    (among : h ∈ heard) (leg : h.1.leg = m.leg side) :
    .claim ⟨h.1.neighbour, m.rank, side.opposite.tag.number⟩ h.1.number ∈ phaseEvents m.rank staged heard ∧
      .receive ⟨h.1.neighbour, m.rank, side.opposite.tag.number⟩ h.1.number (some h.2) ∈
        phaseEvents m.rank staged heard := by
  have key : h.1.receiveKey m.rank = ⟨h.1.neighbour, m.rank, side.opposite.tag.number⟩ := by
    rw [Posted.receiveKey, leg]
    rfl
  rw [← key]
  refine ⟨List.mem_append_left _ (List.mem_flatMap.mpr ⟨h, among, ?_⟩),
    List.mem_append_right _ (List.mem_map.mpr ⟨h, among, rfl⟩)⟩
  simp [Posted.events]

/-- A successful exchange of some fields leaves on every side with a rank across what it has received there. -/
theorem exchange_shows {l : Layout α} {i : Nat} {m : Mesh α} (given : l.Assigns i m) (room : m.HasRoom)
    {fields result : List (Field α)} {events : List (Event (Array α))} (some_ : fields ≠ [])
    (path : Path (m.exchange fields false) events (.finished (.ok result))) {side : Side} {d : Int}
    (guarded : side ∈ m.shape.xSides ++ m.shape.ySides) (across : m.neighbour? side = some d) :
    ∃ (number : Nat) (message : Array α) (contents : List (Int → Int → List α)),
      .claim ⟨d, m.rank, side.opposite.tag.number⟩ number ∈ events ∧
      .receive ⟨d, m.rank, side.opposite.tag.number⟩ number (some message) ∈ events ∧
      (m.targetBlock side).Carries message fields.length l.shape.nz.toNat contents ∧
      ∀ (k : Nat) (f : Field α), fields[k]? = some f → ∃ g, result[k]? = some g ∧ Field.Alike f g ∧
        m.Shows side (contents.getD k fun _ _ => []) g := by
  have shape := Layout.shape_eq given
  have reaches (sides : List Side) := Layout.reaches_sides given sides
  have guardedX (side : Side) (inX : side ∈ m.shape.xSides) : side ∈ l.shape.xSides ++ l.shape.ySides :=
    List.mem_append_left _ (shape ▸ inX)
  have guardedY (side : Side) (inY : side ∈ m.shape.ySides) : side ∈ l.shape.xSides ++ l.shape.ySides :=
    List.mem_append_right _ (shape ▸ inY)
  obtain ⟨distinctX, distinctY, apart⟩ := List.nodup_append.mp m.shape.nodup_sides
  obtain ⟨first, second, found, rfl, started, finished⟩ := path.of_bind_finished
  cases found with
  | error e => cases finished.finished_eq.2
  | ok ex =>
    obtain ⟨shaped, posted, sides, rfl, rfl⟩ := (startExchange_path (m.xLegs_eq ▸ reaches _) fields false ex).mp started
    change Path (m.finishExchange _) _ _ at finished
    obtain ⟨heard, rfl, sizes, rest⟩ := (finishExchange_path (m.yLegs_eq ▸ reaches _)).mp finished
    rw [xLegs_eq] at sides
    have all : HeardAll (m.shape.xSides.map m.leg) fields heard := ⟨sides, sizes⟩
    obtain ⟨length, once⟩ := afterPhase_kept given room shaped all
    have more : m.afterPhase fields heard ≠ [] := by
      rw [← List.length_pos_iff_ne_nil, length]
      exact List.length_pos_iff_ne_nil.mpr some_
    obtain ⟨-, -, later, allY, rfl, rfl⟩ := rest.resolve_left fun ⟨done, _⟩ => done.elim (by decide) more
    rw [yLegs_eq] at allY
    have shapedToo := afterPhase_shaped given room shaped all
    rw [← List.append_assoc, ← phaseEvents_split]
    rcases List.mem_append.mp guarded with inX | inY
    · obtain ⟨h, among, leg, rfl, contents, carries, shows⟩ :=
        afterPhase_shows given room guardedX distinctX all shaped inX across
      obtain ⟨claimed, received⟩ := heard_events among leg
      refine ⟨h.1.number, h.2, contents, List.mem_append_left _ claimed, List.mem_append_left _ received, carries,
        fun k f present => ?_⟩
      obtain ⟨g, present', alike, shown⟩ := shows k f present
      obtain ⟨g', present'', alike', shown'⟩ := afterPhase_elsewhere given room allY shapedToo
        (fun inY => apart side inX side inY rfl) k g present' shown
      exact ⟨g', present'', alike.trans alike', shown'⟩
    · obtain ⟨h, among, leg, rfl, contents, carries, shows⟩ :=
        afterPhase_shows given room guardedY distinctY allY shapedToo inY across
      obtain ⟨claimed, received⟩ := heard_events among leg
      refine ⟨h.1.number, h.2, contents, List.mem_append_right _ claimed, List.mem_append_right _ received,
        length ▸ carries, fun k f present => ?_⟩
      obtain ⟨g, present', alike, -⟩ := once k f present
      obtain ⟨g', present'', alike', shown⟩ := shows k g present'
      exact ⟨g', present'', alike.trans alike', shown⟩

/-- The guard columns of a side hold a message in all fields of a group. A field that the group names twice
holds what the message brings for the last place. -/
def Committed (m : Mesh α) (side : Side) (group : List FieldRef) (message : Array α) (s : Store α) : Prop :=
  ∃ contents : List (Int → Int → List α),
    (m.targetBlock side).Carries message group.length m.shape.nz.toNat contents ∧
    ∀ (k : Nat) ref, group[k]? = some ref → ref ∉ group.drop (k + 1) →
      ∃ f, s.get? ref = some f ∧ m.Shows side (contents.getD k fun _ _ => []) f

theorem exchange_commits {l : Layout α} {i : Nat} {m : Mesh α} (given : l.Assigns i m) (room : m.HasRoom)
    {group : List FieldRef} {s : Store α} {fields result : List (Field α)} {events : List (Event (Array α))}
    (found : group.mapM s.get? = some fields) (some_ : group ≠ [])
    (path : Path (m.exchange fields false) events (.finished (.ok result))) {side : Side} {d : Int}
    (guarded : side ∈ m.shape.xSides ++ m.shape.ySides) (across : m.neighbour? side = some d) :
    ∃ (number : Nat) (message : Array α), .claim ⟨d, m.rank, side.opposite.tag.number⟩ number ∈ events ∧
      .receive ⟨d, m.rank, side.opposite.tag.number⟩ number (some message) ∈ events ∧
      m.Committed side group message (s.putAllValues group result) := by
  have length : group.length = fields.length := by
    simpa using congrArg List.length (Store.mapM_get?.mp found)
  have more : fields ≠ [] := by
    rw [← List.length_pos_iff_ne_nil, ← length]
    exact List.length_pos_iff_ne_nil.mpr some_
  obtain ⟨number, message, contents, claimed, received, carries, shows⟩ :=
    exchange_shows given room more path guarded across
  refine ⟨number, message, claimed, received, contents, ?_, fun k ref named last => ?_⟩
  · rw [length, Layout.shape_eq given]
    exact carries
  · obtain ⟨f, -, present⟩ := Store.found_of_mapM found named
    obtain ⟨g, value, -, shown⟩ := shows k f present
    obtain ⟨-, put⟩ := Store.get?_putAllValues_of_alike found fun k f present => by
      obtain ⟨g, value, alike, -⟩ := shows k f present
      exact ⟨g, value, alike⟩
    exact ⟨g, (put k ref named last).trans value, shown⟩

end Mesh
end HaloMesh
