import HaloMesh.Proofs.HaloPhase

/-! A whole exchange of all ranks. The sides with guard columns come first and those with guard rows second,
and the ranks agree about every message, so the exchange runs to its end in every interleaving. -/

namespace HaloMesh
open Transport Program

variable {α : Type}

namespace Mesh

/-- The two messages that pass on a side, one each way. -/
def parcel (staged : List (Field α)) (h : Heard α) : Parcel (Array α) :=
  { partner := h.1.neighbour, sendTag := h.1.leg.sendTag.number, receiveTag := h.1.leg.receiveTag.number
    sent := h.1.leg.source.pack staged, received := h.2 }

def parcels (meshes : Nat → Mesh α) (staged : Nat → List (Field α)) (sides : List Side) (i : Nat) :
    List (Parcel (Array α)) := (heard meshes staged sides i).map (parcel (staged i))

variable {meshes : Nat → Mesh α} {staged : Nat → List (Field α)} {sides : List Side} {i : Nat}

theorem phaseEvents_eq (rank : Int) : phaseEvents rank (staged i) (heard meshes staged sides i) =
    Parcel.requests rank (parcels meshes staged sides i) := by
  have first (h : Heard α) (member : h ∈ heard meshes staged sides i) : h.1.number = 0 := by
    obtain ⟨side, -, d, -, rfl⟩ := mem_heard.mp member
    rfl
  rw [phaseEvents, Parcel.requests, parcels, List.flatMap_map, List.map_map]
  refine congrArg₂ _ (List.flatMap_congr fun h member => ?_) (List.map_congr_left fun h member => ?_)
  · rw [Posted.events, first h member]
    rfl
  · rw [first h member]
    rfl

theorem mem_parcels {p : Parcel (Array α)} : p ∈ parcels meshes staged sides i ↔ ∃ side ∈ sides, ∃ d,
    (meshes i).neighbour? side = some d ∧ p = parcel (staged i) (heardOn meshes staged i side d) := by
  simp only [parcels, List.mem_map, mem_heard]
  constructor
  · intro holds
    obtain ⟨_, ⟨side, member, d, across, rfl⟩, rfl⟩ := holds
    exact ⟨side, member, d, across, rfl⟩
  · intro holds
    obtain ⟨side, member, d, across, rfl⟩ := holds
    exact ⟨_, ⟨side, member, d, across, rfl⟩, rfl⟩

theorem parcels_tags (tag : Parcel (Array α) → Int) (number : Side → Int)
    (tagged : ∀ side d, tag (parcel (staged i) (heardOn meshes staged i side d)) = number side) :
    (parcels meshes staged sides i).map tag =
      (sides.filter fun side => ((meshes i).neighbour? side).isSome).map number := by
  rw [parcels, heard]
  induction sides with
  | nil => rfl
  | cons side rest ih =>
    cases across : (meshes i).neighbour? side with
    | none => simp [across, ih]
    | some d => simp [across, ih, tagged]

end Mesh

variable [Scalar α]

namespace Mesh

def afterX (meshes : Nat → Mesh α) (fields : Nat → List (Field α)) (i : Nat) : List (Field α) :=
  (meshes i).afterPhase (fields i) (heard meshes fields (meshes i).shape.xSides i)

def afterY (meshes : Nat → Mesh α) (fields : Nat → List (Field α)) (i : Nat) : List (Field α) :=
  (meshes i).afterPhase (fields i) (heard meshes fields (meshes i).shape.ySides i)

/-- The messages of a rank in a whole exchange. Without fields there is no second phase. -/
def phases (meshes : Nat → Mesh α) (fields : Nat → List (Field α)) (i : Nat) : List (List (Parcel (Array α))) :=
  parcels meshes fields (meshes i).shape.xSides i ::
    if fields i = [] then [] else [parcels meshes (afterX meshes fields) (meshes i).shape.ySides i]

end Mesh

namespace Staged
open Mesh

variable {l : Layout α} {meshes : Nat → Mesh α} {size : Nat} {fields : Nat → List (Field α)} {i : Nat}

theorem afterX (ready : Staged l meshes size fields) : Staged l meshes size (afterX meshes fields) where
  given := ready.given
  room := ready.room
  lengths i inside := (ready.phase_lines inside _).1
  shaped i inside g member := by
    obtain ⟨length, lines⟩ := ready.phase_lines inside (meshes i).shape.xSides
    obtain ⟨k, found⟩ := List.getElem?_of_mem member
    have present : k < (fields i).length := by
      rw [ready.lengths i inside, ← length]
      exact (List.getElem?_eq_some_iff.mp found).1
    obtain ⟨g', found', alike, -⟩ := lines k _ (List.getElem?_eq_getElem present)
    obtain rfl : g = g' := Option.some.inj (found.symm.trans found')
    have shaped := ready.shaped i inside _ (List.getElem_mem present)
    rw [← shaped]
    simp only [Field.extents, alike.nx, alike.ny, alike.nz]

omit [Scalar α] in
/-- What a rank gets in a phase is what the rank across sends in the same phase. -/
theorem parcels_matched (ready : Staged l meshes size fields) (inside : i < l.count) {sides : List Side}
    (closed : ∀ side ∈ sides, side.opposite ∈ sides) {p : Parcel (Array α)} (member : p ∈ parcels meshes fields sides i) :
    ∃ j < l.count, p.partner = j ∧ ∃ q ∈ parcels meshes fields sides j,
      q.partner = i ∧ q.sendTag = p.receiveTag ∧ q.receiveTag = p.sendTag ∧ q.sent = p.received := by
  obtain ⟨side, among, d, across, rfl⟩ := mem_parcels.mp member
  obtain ⟨j, within, rfl⟩ := Layout.neighbour_lt (ready.given i inside) across
  have back := (Layout.neighbour_mutual (ready.given i inside) (ready.given j within) side).mp across
  refine ⟨j, within, rfl, _, mem_parcels.mpr ⟨side.opposite, closed side among, i, back, rfl⟩, rfl, rfl, ?_, rfl⟩
  simp [parcel, heardOn, leg]

theorem tags_nodup (i : Nat) (tag : Parcel (Array α) → Int) (number : Side → Int) (injective : Function.Injective number)
    (tagged : ∀ staged side d, tag (parcel (staged i) (heardOn meshes staged i side d)) = number side) :
    ((phases meshes fields i).flatten.map tag).Nodup := by
  have sublist : ((phases meshes fields i).flatten.map tag).Sublist
      (((meshes i).shape.xSides ++ (meshes i).shape.ySides).map number) := by
    have tags (staged : Nat → List (Field α)) (sides : List Side) :
        ((parcels meshes staged sides i).map tag).Sublist (sides.map number) := by
      rw [parcels_tags tag number (tagged staged)]
      exact List.filter_sublist.map number
    rw [phases, List.flatten_cons, List.map_append, List.map_append]
    refine (tags _ _).append ?_
    split
    · simp
    · simpa using tags _ _
  exact (((meshes i).shape.nodup_sides).map injective).sublist sublist

/-- The ranks agree about every message of an exchange. -/
theorem coordinated (ready : Staged l meshes size fields) : Coordinated l.count (phases meshes fields) tagPhase where
  sendTags i _ := tags_nodup i _ (fun side => side.tag.number) (fun _ _ same => Side.tag_number_injective same)
    fun _ _ _ => rfl
  receiveTags i _ := by
    refine tags_nodup i _ (fun side => side.opposite.tag.number) (fun side other same => ?_) fun _ _ _ => rfl
    rw [← side.opposite_opposite, Side.tag_number_injective same, Side.opposite_opposite]
  levels i _ := by
    unfold phases
    split
    · exact List.pairwise_singleton _ _
    · apply List.pairwise_pair.mpr
      intro p early q late
      obtain ⟨side, first, _, -, rfl⟩ := mem_parcels.mp early
      obtain ⟨other, second, _, -, rfl⟩ := mem_parcels.mp late
      change tagPhase side.opposite.tag.number < tagPhase other.tag.number
      rw [GridShape.tagPhase_xSides (GridShape.opposite_xSides first), GridShape.tagPhase_ySides second]
      exact Nat.zero_lt_one
  matched i inside p member := by
    have shape (j : Nat) (within : j < l.count) := Layout.shape_eq (ready.given j within)
    have empty (j : Nat) (within : j < l.count) : fields j = [] ↔ size = 0 := by
      rw [← ready.lengths j within, List.length_eq_zero_iff]
    rw [phases, List.flatten_cons, List.mem_append, shape i inside, if_congr (empty i inside) rfl rfl] at member
    rcases member with early | late
    · obtain ⟨j, within, partner, q, among, rest⟩ :=
        ready.parcels_matched inside (fun _ => GridShape.opposite_xSides) early
      refine ⟨j, within, partner, q, ?_, rest⟩
      rw [phases, List.flatten_cons, shape j within]
      exact List.mem_append_left _ among
    · split at late
      · simp at late
      next several =>
        rw [List.flatten_singleton] at late
        obtain ⟨j, within, partner, q, among, rest⟩ :=
          ready.afterX.parcels_matched inside (fun _ => GridShape.opposite_ySides) late
        refine ⟨j, within, partner, q, ?_, rest⟩
        rw [phases, List.flatten_cons, shape j within, if_neg (mt (empty j within).mp several), List.flatten_singleton]
        exact List.mem_append_right _ among

/-- An exchange goes through its script and ends with the guard cells of both phases filled. -/
theorem exchange_script (ready : Staged l meshes size fields) (inside : i < l.count) : ∃ first second ex,
    Parcel.script i (phases meshes fields i) = first ++ second ∧
      Path ((meshes i).startExchange (fields i) false) first (.finished (.ok ex)) ∧
      Path ((meshes i).finishExchange ex) second
        (.finished (.ok (afterY meshes (Mesh.afterX meshes fields) i))) := by
  have here := ready.given i inside
  have rank : (meshes i).rank = i := by rw [Mesh.rank, Layout.rank_eq here]
  have guardedX (side : Side) (member : side ∈ (meshes i).shape.xSides) : side ∈ l.shape.xSides ++ l.shape.ySides :=
    List.mem_append_left _ (Layout.shape_eq here ▸ member)
  have guardedY (side : Side) (member : side ∈ (meshes i).shape.ySides) : side ∈ l.shape.xSides ++ l.shape.ySides :=
    List.mem_append_right _ (Layout.shape_eq here ▸ member)
  have heardX := ready.heardAll inside guardedX
  have heardY := ready.afterX.heardAll inside guardedY
  rw [← xLegs_eq] at heardX
  rw [← yLegs_eq] at heardY
  have reachesX : (meshes i).Reaches (meshes i).xLegs := by
    rw [xLegs_eq]
    exact Layout.reaches_sides here _
  have reachesY : (meshes i).Reaches (meshes i).yLegs := by
    rw [yLegs_eq]
    exact Layout.reaches_sides here _
  let first := heard meshes fields (meshes i).shape.xSides i
  let second := heard meshes (Mesh.afterX meshes fields) (meshes i).shape.ySides i
  have started := (startExchange_path reachesX (fields i) false _).mpr
    ⟨ready.shaped i inside, first.map Prod.fst, heardX.sides, rfl, rfl⟩
  have kept : Mesh.afterX meshes fields i = [] ↔ fields i = [] := by
    rw [← List.length_eq_zero_iff, ← List.length_eq_zero_iff, ready.lengths i inside, ready.afterX.lengths i inside]
  have parts : Parcel.script i (phases meshes fields i) =
      (first.map Prod.fst).flatMap (Posted.events (meshes i).rank (fields i)) ++
        (receiveEvents (meshes i).rank first ++
          if fields i = [] then [] else phaseEvents (meshes i).rank (Mesh.afterX meshes fields i) second) := by
    rw [← rank, Parcel.script, phases, List.flatMap_cons, ← phaseEvents_eq, phaseEvents_split, phaseEvents_eq,
      List.append_assoc]
    split
    · rfl
    · rw [List.flatMap_singleton]
  refine ⟨_, _, _, parts, started, (finishExchange_path reachesY).mpr ⟨first, rfl, heardX.sizes, ?_⟩⟩
  by_cases empty : fields i = []
  · refine .inl ⟨.inr (kept.mpr empty), by rw [if_pos empty, List.append_nil], ?_⟩
    refine (List.eq_nil_of_length_eq_zero ((ready.afterX.phase_lines inside _).1.trans ?_)).trans (kept.mpr empty).symm
    rw [← ready.lengths i inside, empty]
    rfl
  · exact .inr ⟨rfl, mt kept.mp empty, second, heardY, by rw [if_neg empty]; rfl, rfl⟩

end Staged
end HaloMesh
