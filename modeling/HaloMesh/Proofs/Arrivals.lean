import HaloMesh.Proofs.FieldLines

/-! What staged fields hold once everything has arrived. Every arrival fills its block of every field with
the lines that it brings, turned in z where it crosses a branch cut, and leaves the other columns alone. -/

namespace HaloMesh
open Transport

variable {α : Type}

def Field.OfShape (f : Field α) (e : Extents) : Prop := f.extents = e ∧ f.Fits

theorem Field.Alike.ofShape {f g : Field α} {e : Extents} (alike : Field.Alike f g) (shaped : f.OfShape e) :
    g.OfShape e := by
  obtain ⟨rfl, fits⟩ := shaped
  exact ⟨by simp only [Field.extents, alike.nx, alike.ny, alike.nz], alike.fits fits⟩

namespace Mesh

variable [Scalar α]

/-- The line of a column turned in z, in the sense of a step across a branch cut. -/
def turnLine (m : Mesh α) (turn x : Int) (line : List α) : List α :=
  if line.length = 1 then line
  else
    match (Modes.ofLength line.length : Outcome (Modes α)) with
    | .error _ => line
    | .ok modes =>
      let angle := Scalar.ofInt turn * ((m.shape.angleAt (m.globalX x)).toOption).getD 0
      if Scalar.same angle 0 then line else (modes.shift line.toArray (angle / m.zLength)).toList

variable {m : Mesh α} {f : Field α} {b : Block} {turn : Int}

private theorem turn_columns (m : Mesh α) (turn : Int) (fits : f.Fits) (within : b.Within f) :
    Field.Alike f (m.turnBlock f b turn) ∧ ∀ x y, f.HasColumn x y →
      (m.turnBlock f b turn).line x y = if (x, y) ∈ b.columns then m.turnLine turn x (f.line x y) else f.line x y := by
  have still (known : ∀ x y, f.HasColumn x y → m.turnLine turn x (f.line x y) = f.line x y) :
      Field.Alike f f ∧ ∀ x y, f.HasColumn x y →
        f.line x y = if (x, y) ∈ b.columns then m.turnLine turn x (f.line x y) else f.line x y :=
    ⟨Field.Alike.refl f, fun x y has => by rw [known x y has, ite_self]⟩
  unfold turnBlock
  split
  next single => exact still fun x y has => by rw [turnLine, Field.length_line fits has, if_pos single]
  next several =>
    split
    next _ unmade =>
      exact still fun x y has => by rw [turnLine, Field.length_line fits has, if_neg several, unmade]
    next modes made =>
      refine Block.foldl_columns (fun x _ line => m.turnLine turn x line) b.columns b.nodup_columns ?_ f fits rfl
        fun c member => within c.1 c.2 (Block.mem_columns.mp member)
      intro c member g room points has
      have turned (x y : Int) (there : g.HasColumn x y) : m.turnLine turn x (g.line x y) =
          if Scalar.same (Scalar.ofInt turn * ((m.shape.angleAt (m.globalX x)).toOption).getD 0) (0 : α)
          then g.line x y else (modes.shift (g.line x y).toArray ((Scalar.ofInt turn *
            ((m.shape.angleAt (m.globalX x)).toOption).getD 0) / m.zLength)).toList := by
        rw [turnLine, Field.length_line room there, points, if_neg several, made]
      dsimp only
      split
      next zero =>
        refine ⟨Field.Alike.refl g, fun x y there => ?_⟩
        split
        next same =>
          obtain ⟨rfl, rfl⟩ := same
          rw [turned _ _ there, if_pos zero]
        next => rfl
      next nonzero =>
        refine ⟨g.setLine_alike .., fun x y there => ?_⟩
        rw [Field.line_setLine room has there (by rw [Array.length_toList, Modes.size_shift made, points])]
        split
        next same =>
          obtain ⟨rfl, rfl⟩ := same
          rw [turned _ _ there, if_neg nonzero]
          rfl
        next => rfl

theorem turnBlock_alike (m : Mesh α) (turn : Int) (fits : f.Fits) (within : b.Within f) :
    Field.Alike f (m.turnBlock f b turn) := (turn_columns m turn fits within).1

theorem line_turnBlock (m : Mesh α) (turn : Int) (fits : f.Fits) (within : b.Within f) {x y : Int}
    (has : f.HasColumn x y) : (m.turnBlock f b turn).line x y =
      if b.Contains x y then m.turnLine turn x (f.line x y) else f.line x y := by
  simpa only [Block.mem_columns] using (turn_columns m turn fits within).2 x y has

end Mesh

/-- A receive that has got its message, with the lines that the message brings for each field. -/
structure Arrival (α : Type) where
  expected : Expected α
  contents : List (Int → Int → List α)

namespace Arrival

structure Reads (a : Arrival α) (count nz : Nat) : Prop where
  values : a.expected.request.buffer.toList = a.expected.target.message a.contents
  count : a.contents.length = count
  lengths : ∀ lines ∈ a.contents, ∀ x y, a.expected.target.Contains x y → (lines x y).length = nz

variable [Scalar α]

/-- The line that an arrival leaves at a column of field `k`, where `line` was before. -/
def leaves (a : Arrival α) (m : Mesh α) (k : Nat) (x y : Int) (line : List α) : List α :=
  if a.expected.target.Contains x y then
    let brought := a.contents.getD k (fun _ _ => []) x y
    if a.expected.turn = 0 then brought else m.turnLine a.expected.turn x brought
  else line

theorem foldl_leaves_of_not (m : Mesh α) (k : Nat) (x y : Int) (arrivals : List (Arrival α)) (line : List α)
    (outside : ∀ a ∈ arrivals, ¬ a.expected.target.Contains x y) :
    arrivals.foldl (fun line a => a.leaves m k x y line) line = line := by
  induction arrivals generalizing line with
  | nil => rfl
  | cons a rest ih =>
    rw [List.foldl_cons, leaves, if_neg (outside a List.mem_cons_self)]
    exact ih line fun b member => outside b (List.mem_cons_of_mem _ member)

theorem foldl_leaves (m : Mesh α) (k : Nat) (x y : Int) (arrivals : List (Arrival α)) (line : List α)
    {a : Arrival α} (member : a ∈ arrivals) (inside : a.expected.target.Contains x y)
    (only : ∀ b ∈ arrivals, b.expected.target.Contains x y → b = a) :
    arrivals.foldl (fun line a => a.leaves m k x y line) line = a.leaves m k x y line := by
  induction arrivals generalizing line with
  | nil => cases member
  | cons b rest ih =>
    rw [List.foldl_cons]
    by_cases later : a ∈ rest
    · rw [ih (b.leaves m k x y line) later fun c among => only c (List.mem_cons_of_mem _ among)]
      simp only [leaves, if_pos inside]
    · obtain rfl : a = b := (List.mem_cons.mp member).resolve_right later
      apply foldl_leaves_of_not m k x y rest _
      intro c among holds
      exact later (only c (List.mem_cons_of_mem _ among) holds ▸ among)

end Arrival

namespace Mesh

variable [Scalar α]

private theorem place_one (m : Mesh α) {e : Extents} {a : Arrival α} {staged : List (Field α)}
    (shaped : ∀ f ∈ staged, f.OfShape e) (within : ∀ f ∈ staged, a.expected.target.Within f)
    (reads : a.Reads staged.length e.nz.toNat) :
    let filled := a.expected.target.unpack staged a.expected.request.buffer.toList
    let turned := if a.expected.turn = 0 then filled
      else filled.map fun f => m.turnBlock f a.expected.target a.expected.turn
    turned.length = staged.length ∧ ∀ k f, staged[k]? = some f → ∃ g, turned[k]? = some g ∧ Field.Alike f g ∧
      ∀ x y, f.HasColumn x y → g.line x y = a.leaves m k x y (f.line x y) := by
  have points (f : Field α) (member : f ∈ staged) : f.nz = e.nz.toNat := by
    obtain ⟨rfl, -⟩ := shaped f member
    simp [Field.extents]
  have filled : a.expected.target.unpack staged a.expected.request.buffer.toList =
      List.zipWith a.expected.target.spread staged a.contents := by
    rw [reads.values]
    exact Block.unpack_message _ _ _ reads.count fun f member lines among x y inside =>
      (reads.lengths lines among x y inside).trans (points f member).symm
  dsimp only
  rw [filled]
  refine ⟨by split <;> simp [reads.count], fun k f found => ?_⟩
  have member := List.mem_of_getElem? found
  obtain ⟨-, fits⟩ := shaped f member
  have inside : k < a.contents.length := reads.count ▸ (List.getElem?_eq_some_iff.mp found).1
  have content : a.contents[k]? = some (a.contents.getD k fun _ _ => []) := by
    rw [List.getD_eq_getElem?_getD, List.getElem?_eq_getElem inside]
    rfl
  have lengths (x y : Int) (holds : a.expected.target.Contains x y) :
      (a.contents.getD k (fun _ _ => []) x y).length = f.nz :=
    (reads.lengths _ (List.mem_of_getElem? content) x y holds).trans (points f member).symm
  have alike := Block.spread_alike fits (within f member) lengths
  have lines (x y : Int) (has : f.HasColumn x y) := Block.line_spread fits (within f member) lengths has
  have spread : (List.zipWith a.expected.target.spread staged a.contents)[k]? =
      some (a.expected.target.spread f (a.contents.getD k fun _ _ => [])) := by
    rw [List.getElem?_zipWith, found, content]
  by_cases straight : a.expected.turn = 0
  · refine ⟨_, by rw [if_pos straight]; exact spread, alike, fun x y has => ?_⟩
    rw [lines x y has]
    simp only [Arrival.leaves, straight, ↓reduceIte]
  · have room : a.expected.target.Within (a.expected.target.spread f (a.contents.getD k fun _ _ => [])) :=
      fun x y holds => alike.hasColumn.mpr (within f member x y holds)
    refine ⟨m.turnBlock (a.expected.target.spread f (a.contents.getD k fun _ _ => [])) a.expected.target
      a.expected.turn, by rw [if_neg straight, List.getElem?_map, spread]; rfl,
      alike.trans (turnBlock_alike m _ (alike.fits fits) room), fun x y has => ?_⟩
    rw [line_turnBlock m _ (alike.fits fits) room (alike.hasColumn.mpr has), lines x y has]
    simp only [Arrival.leaves, straight, ↓reduceIte]
    split <;> rfl

/-- All arrivals together leave at each column what the last one with this column in its block brought. -/
theorem place_lines (m : Mesh α) {e : Extents} (arrivals : List (Arrival α)) {staged : List (Field α)}
    (shaped : ∀ f ∈ staged, f.OfShape e) (within : ∀ a ∈ arrivals, ∀ f ∈ staged, a.expected.target.Within f)
    (reads : ∀ a ∈ arrivals, a.Reads staged.length e.nz.toNat) :
    (m.place staged (arrivals.map Arrival.expected)).length = staged.length ∧
      ∀ k f, staged[k]? = some f → ∃ g, (m.place staged (arrivals.map Arrival.expected))[k]? = some g ∧
        Field.Alike f g ∧ ∀ x y, f.HasColumn x y →
          g.line x y = arrivals.foldl (fun line a => a.leaves m k x y line) (f.line x y) := by
  induction arrivals generalizing staged with
  | nil => exact ⟨rfl, fun k f found => ⟨f, found, Field.Alike.refl f, fun _ _ _ => rfl⟩⟩
  | cons a rest ih =>
    obtain ⟨length, first⟩ := place_one m shaped (within a List.mem_cons_self) (reads a List.mem_cons_self)
    rw [List.map_cons, place]
    generalize (if a.expected.turn = 0 then a.expected.target.unpack staged a.expected.request.buffer.toList
      else (a.expected.target.unpack staged a.expected.request.buffer.toList).map fun f =>
        m.turnBlock f a.expected.target a.expected.turn) = turned at length first ⊢
    have origin (g : Field α) (member : g ∈ turned) : ∃ f ∈ staged, Field.Alike f g := by
      obtain ⟨k, found⟩ := List.getElem?_of_mem member
      have inside : k < staged.length := length ▸ (List.getElem?_eq_some_iff.mp found).1
      obtain ⟨g', found', alike, -⟩ := first k _ (List.getElem?_eq_getElem inside)
      obtain rfl := Option.some.inj (found.symm.trans found')
      exact ⟨_, List.getElem_mem inside, alike⟩
    obtain ⟨total, others⟩ := @ih turned
      (fun g member => by
        obtain ⟨f, among, alike⟩ := origin g member
        exact alike.ofShape (shaped f among))
      (fun b later g member => by
        obtain ⟨f, among, alike⟩ := origin g member
        exact fun x y holds => alike.hasColumn.mpr (within b (List.mem_cons_of_mem _ later) f among x y holds))
      (fun b later => length ▸ reads b (List.mem_cons_of_mem _ later))
    refine ⟨total.trans length, fun k f found => ?_⟩
    obtain ⟨g, found', alike, values⟩ := first k f found
    obtain ⟨h, found'', alike', values'⟩ := others k g found'
    refine ⟨h, found'', alike.trans alike', fun x y has => ?_⟩
    rw [values' x y (alike.hasColumn.mpr has), values x y has, List.foldl_cons]

end Mesh
end HaloMesh
