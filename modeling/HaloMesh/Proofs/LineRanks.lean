import Mathlib.Data.List.Sort
import HaloMesh.Mesh.FieldLine
import HaloMesh.Proofs.FieldLineRows

/-! The ranks that a field line passes. From its first row a rank walks up and down the line until it ends or comes back
to that row, and meets all other rows of the line on the way. Their owners are the same for all ranks of the line. -/

namespace HaloMesh

variable {α : Type}

namespace Topology

variable {t : Topology} {ny row k k' : Int} {inner up : Bool}

theorem walk_once : t.walk up inner 1 row = (t.step up row inner).row := by
  rw [walk_succ, walk_zero, Option.bind_some]

theorem walk_onward (steps : Nat) :
    t.walk up inner (1 + steps) row = (t.step up row inner).row.bind (t.walk up inner steps) := by
  rw [walk_add, walk_once]

/-- From one place of a line to another there is a way that does not come back to the first. -/
theorem Track.step_once {line : Track} (inside : 0 ≤ k ∧ k < line.length) (within : 0 ≤ k' ∧ k' < line.length)
    (other : k' ≠ k) : ∃ up, ∃ steps : Nat, 1 ≤ steps ∧ steps ≤ line.length ∧ line.step up k steps = some k' ∧
      ∀ fewer : Nat, 1 ≤ fewer → fewer ≤ steps → line.step up k fewer ≠ some k := by
  cases closed : line.closed with
  | true =>
    have turned := Int.emod_nonneg (k' - k) (show line.length ≠ 0 by omega)
    have short := Int.emod_lt_of_pos (k' - k) (show 0 < line.length by omega)
    have moves (steps : Nat) : line.step true k steps = some ((k + steps) % line.length) := by
      rw [Track.step, if_pos closed, ahead, if_pos rfl]
    have some_ : (k' - k) % line.length ≠ 0 := by
      intro none_
      have same := Int.emod_eq_emod_iff_emod_sub_eq_zero.mpr none_
      rw [Int.emod_eq_of_lt inside.1 inside.2, Int.emod_eq_of_lt within.1 within.2] at same
      exact other same
    refine ⟨true, ((k' - k) % line.length).toNat, by omega, by omega, ?_, fun fewer first last => ?_⟩
    · rw [moves, Int.toNat_of_nonneg turned, Int.add_emod_emod, Int.add_comm k, Int.sub_add_cancel,
        Int.emod_eq_of_lt within.1 within.2]
    · rw [moves, ne_eq, Option.some.injEq]
      by_cases around : k + fewer < line.length
      · rw [Int.emod_eq_of_lt (by omega) around]
        omega
      · rw [← Int.sub_emod_right, Int.emod_eq_of_lt (by omega) (by omega)]
        omega
  | false =>
    have moves (up : Bool) (steps : Nat) (stays : 0 ≤ ahead up k steps ∧ ahead up k steps < line.length) :
        line.step up k steps = some (ahead up k steps) := by
      rw [Track.step, closed, if_neg Bool.false_ne_true, if_pos stays]
    by_cases later : k < k'
    · refine ⟨true, (k' - k).toNat, by omega, by omega, ?_, fun fewer first last => ?_⟩
      · rw [moves] <;> simp only [ahead, ↓reduceIte, Option.some.injEq] <;> omega
      · rw [moves] <;> simp only [ahead, ↓reduceIte, ne_eq, Option.some.injEq] <;> omega
    · refine ⟨false, (k - k').toNat, by omega, by omega, ?_, fun fewer first last => ?_⟩
      · rw [moves] <;> simp only [ahead, Bool.false_eq_true, ↓reduceIte, Option.some.injEq] <;> omega
      · rw [moves] <;> simp only [ahead, Bool.false_eq_true, ↓reduceIte, ne_eq, Option.some.injEq] <;> omega

/-- After as many steps as it has rows a line has ended or come back. -/
theorem Track.step_length {line : Track} (inside : 0 ≤ k ∧ k < line.length) (up : Bool)
    (reached : line.step up k line.length.toNat = some k') : k' = k := by
  have whole : (line.length.toNat : Int) = line.length := Int.toNat_of_nonneg (by omega)
  rw [Track.step] at reached
  split at reached
  · rw [← Option.some.inj reached]
    cases up
    · rw [ahead, if_neg (by decide), whole, Int.sub_emod_right, Int.emod_eq_of_lt inside.1 inside.2]
    · rw [ahead, if_pos rfl, whole, Int.add_emod_right, Int.emod_eq_of_lt inside.1 inside.2]
  · rw [if_neg] at reached
    · cases reached
    · cases up <;> simp only [ahead, Bool.false_eq_true, ↓reduceIte] <;> omega

theorem track_length_le (inner : Bool) (proper : t.Proper ny) (high : row < ny) : (t.track inner row).length ≤ ny := by
  cases t with
  | rectangular rows periodic =>
    obtain ⟨words, rfl⟩ := proper
    exact Int.le_refl _
  | singleNull rows separatrix leg1 leg2 =>
    obtain ⟨words, rfl, first, legs, last, paired⟩ := proper
    cases inner with
    | false => exact Int.le_refl _
    | true =>
      rw [track]
      split <;> simp only <;> omega

/-- Rows lie on one line if it is the same line from both. -/
theorem onLine_iff (proper : t.Proper ny) {other : Int} (first : 0 ≤ row ∧ row < ny) (second : 0 ≤ other ∧ other < ny) :
    t.OnLine inner row other ↔ t.track inner other = t.track inner row := by
  obtain ⟨k, inside, here⟩ := track_place inner proper first.1 first.2
  have line := onLine_track proper first.2 inside other
  rw [here] at line
  rw [line]
  constructor
  · intro found
    obtain ⟨k', within, rfl⟩ := found
    exact (track_row proper first.2 within).2
  · intro same
    rw [← same]
    exact track_place inner proper second.1 second.2

end Topology

theorem mapM_ok {β γ ε : Type} {f : β → Except ε γ} {g : β → γ} {items : List β}
    (each : ∀ item ∈ items, f item = .ok (g item)) : items.mapM f = .ok (items.map g) := by
  induction items with
  | nil => rfl
  | cons item rest ih =>
    rw [List.mapM_cons, each item List.mem_cons_self, ih fun other later => each other (List.mem_cons_of_mem _ later)]
    rfl

namespace Mesh

/-- The rows met on the way from `start` by repeated steps, up to a boundary or back to the start. -/
def walkRows (next : Int → Option Int) (start : Int) : (steps : Nat) → Int → List Int
  | 0, _ => []
  | steps + 1, j =>
    match next j with
    | none => []
    | some k => if k < 0 ∨ k = start then [] else k :: walkRows next start steps k

/-- A walk visits the rows that it meets. -/
theorem visitRows_eq {β : Type} (visit : Int → Outcome β) (next : Int → Option Int) (start : Int) (steps : Nat) (j : Int) :
    visitRows visit next start steps j = (walkRows next start steps j).mapM visit := by
  induction steps generalizing j with
  | zero => rfl
  | succ steps ih =>
    rw [visitRows, walkRows]
    cases next j with
    | none => rfl
    | some k =>
      dsimp only
      split
      · rfl
      · rw [List.mapM_cons, ih]

section Walk
open HaloMesh.Topology (walk_once walk_onward)

variable {t : Topology} {inner up : Bool} {start j r : Int} {n more : Nat}

/-- A walk meets the rows that are reached without coming back to the start. -/
theorem mem_walkRows (rows : ∀ steps k, t.walk up inner steps j = some k → 0 ≤ k) :
    r ∈ walkRows (fun k => (t.step up k inner).row) start n j ↔ ∃ steps, 1 ≤ steps ∧ steps ≤ n ∧
      t.walk up inner steps j = some r ∧ ∀ fewer, 1 ≤ fewer → fewer ≤ steps → t.walk up inner fewer j ≠ some start := by
  induction n generalizing j with
  | zero =>
    simp only [walkRows, List.not_mem_nil, false_iff]
    intro found
    omega
  | succ n ih =>
    rw [walkRows]
    cases next : (t.step up j inner).row with
    | none =>
      simp only [List.not_mem_nil, false_iff]
      intro found
      obtain ⟨steps, some_, -, reached, -⟩ := found
      rw [show steps = 1 + (steps - 1) by omega, walk_onward, next] at reached
      cases reached
    | some k =>
      have positive : ¬ k < 0 := Int.not_lt.mpr (rows 1 k (walk_once.trans next))
      simp only [positive, false_or]
      split
      next back =>
        simp only [List.not_mem_nil, false_iff]
        intro found
        obtain ⟨steps, some_, -, -, away⟩ := found
        exact away 1 (Nat.le_refl 1) some_ (by rw [walk_once, next, back])
      next away =>
        rw [List.mem_cons, ih fun steps k' reached => rows (1 + steps) k' (by rw [walk_onward, next]; exact reached)]
        constructor
        · rintro (rfl | ⟨steps, some_, few, reached, alone⟩)
          · refine ⟨1, Nat.le_refl 1, by omega, walk_once.trans next, fun fewer low high => ?_⟩
            rw [show fewer = 1 by omega, walk_once, next, ne_eq, Option.some.injEq]
            exact away
          · refine ⟨1 + steps, by omega, by omega, by rw [walk_onward, next]; exact reached, fun fewer low high => ?_⟩
            by_cases once : fewer = 1
            · rw [once, walk_once, next, ne_eq, Option.some.injEq]
              exact away
            · rw [show fewer = 1 + (fewer - 1) by omega, walk_onward, next]
              exact alone (fewer - 1) (by omega) (by omega)
        · intro found
          obtain ⟨steps, some_, few, reached, alone⟩ := found
          by_cases once : steps = 1
          · rw [once, walk_once, next, Option.some.injEq] at reached
            exact .inl reached.symm
          · refine .inr ⟨steps - 1, by omega, by omega, ?_, fun fewer low high => ?_⟩
            · rw [show steps = 1 + (steps - 1) by omega, walk_onward, next] at reached
              exact reached
            · have later := alone (1 + fewer) (by omega) (by omega)
              rw [walk_onward, next] at later
              exact later

/-- A walk that has ended or come back meets nothing more. -/
theorem walkRows_ended (ends : ∃ steps, 1 ≤ steps ∧ steps ≤ n ∧ ∀ k, t.walk up inner steps j = some k → k = start)
    (le : n ≤ more) : walkRows (fun k => (t.step up k inner).row) start more j =
      walkRows (fun k => (t.step up k inner).row) start n j := by
  induction n generalizing j more with
  | zero =>
    obtain ⟨steps, some_, few, -⟩ := ends
    omega
  | succ n ih =>
    obtain ⟨more, rfl⟩ : ∃ m, more = m + 1 := ⟨more - 1, by omega⟩
    rw [walkRows, walkRows]
    cases next : (t.step up j inner).row with
    | none => rfl
    | some k =>
      simp only
      split
      next => rfl
      next away =>
        obtain ⟨steps, some_, few, ended⟩ := ends
        have longer : steps ≠ 1 := fun once => away (.inr (ended k (by rw [once, walk_once, next])))
        refine congrArg (k :: ·) (ih ⟨steps - 1, by omega, by omega, fun k' reached => ended k' ?_⟩ (by omega))
        rw [show steps = 1 + (steps - 1) by omega, walk_onward, next]
        exact reached

end Walk

/-- The rows met in at most so many steps along the field line through a local column and the first own row. -/
def lineWalk (m : Mesh α) (x : Int) (up : Bool) (steps : Nat) : List Int :=
  walkRows (fun j => (m.shape.topology.step up j (decide (m.globalX x < m.shape.topology.separatrix))).row)
    (m.globalY m.ystart) steps (m.globalY m.ystart)

/-- The rows of the field line through a local column and the first own row. -/
def LineRow (m : Mesh α) (x row : Int) : Prop :=
  m.shape.topology.OnLine (decide (m.globalX x < m.shape.topology.separatrix)) (m.globalY m.ystart) row

/-- The rows that a rank meets on a field line, its first row before all others. -/
def lineRows (m : Mesh α) (x : Int) : List Int :=
  m.globalY m.ystart :: (m.lineWalk x true m.shape.ny.toNat ++ m.lineWalk x false m.shape.ny.toNat)

/-- A rank asks for the owners of the rows in turn. -/
theorem yRanks_eq_mapM (m : Mesh α) (x : Int) : m.yRanks x = do
    let owners ← (m.lineRows x).mapM m.rowOwner
    return (ascending owners).map fun py => m.procRank m.pex py := by
  simp only [yRanks, visitRows_eq, lineRows, List.mapM_cons, List.mapM_append, bind_assoc, pure_bind]
  rfl

section Line

variable {m : Mesh α} {ny : Int} (proper : m.shape.topology.Proper ny) (rows : m.shape.ny = ny)
  (low : 0 ≤ m.globalY m.ystart) (high : m.globalY m.ystart < ny)
include proper rows low high

/-- The rows that a rank meets are those of the field line through its first row. -/
theorem mem_lineRows {x r : Int} : r ∈ m.lineRows x ↔ m.LineRow x r := by
  rw [lineRows, LineRow, lineWalk, lineWalk]
  generalize inner : decide (m.globalX x < m.shape.topology.separatrix) = side
  obtain ⟨k, inside, here⟩ := Topology.track_place side proper low high
  have walked (up : Bool) (steps : Nat) := Topology.walk_track proper high inside up steps
  have line := Topology.onLine_track proper high inside r
  rw [here] at walked line
  have nonneg (up : Bool) (steps : Nat) (k' : Int)
      (reached : m.shape.topology.walk up side steps (m.globalY m.ystart) = some k') : 0 ≤ k' := by
    obtain ⟨place, within, rfl⟩ := (here ▸ Topology.onLine_track proper high inside k').mp ⟨up, steps, reached⟩
    exact (Topology.track_row proper high within).1.1
  rw [List.mem_cons, List.mem_append, mem_walkRows (nonneg true), mem_walkRows (nonneg false)]
  constructor
  · rintro (rfl | ⟨steps, -, -, reached, -⟩ | ⟨steps, -, -, reached, -⟩)
    · exact ⟨true, 0, Topology.walk_zero⟩
    · exact ⟨true, steps, reached⟩
    · exact ⟨false, steps, reached⟩
  · intro onLine
    obtain ⟨k', within, rfl⟩ := line.mp onLine
    by_cases same : k' = k
    · exact .inl (same ▸ here)
    · obtain ⟨up, steps, some_, few, moved, alone⟩ := Topology.Track.step_once inside within same
      have long := Topology.track_length_le side proper high
      have found : ∃ steps, 1 ≤ steps ∧ steps ≤ m.shape.ny.toNat ∧
          m.shape.topology.walk up side steps (m.globalY m.ystart) =
            some ((m.shape.topology.track side (m.globalY m.ystart)).row k') ∧
          ∀ fewer, 1 ≤ fewer → fewer ≤ steps →
            m.shape.topology.walk up side fewer (m.globalY m.ystart) ≠ some (m.globalY m.ystart) := by
        refine ⟨steps, some_, by omega, by rw [walked, moved, Option.map_some], fun fewer first last back => ?_⟩
        rw [walked, Option.map_eq_some_iff] at back
        obtain ⟨place, reached, same⟩ := back
        obtain rfl := Topology.track_inj proper (same.trans here.symm)
        exact alone fewer first last reached
      cases up
      · exact .inr (.inr found)
      · exact .inr (.inl found)

/-- The walks of a rank along a field line come to an end: further steps meet nothing more. -/
theorem lineWalk_ends (x : Int) (up : Bool) {steps : Nat} (more : m.shape.ny.toNat ≤ steps) :
    m.lineWalk x up steps = m.lineWalk x up m.shape.ny.toNat := by
  rw [lineWalk, lineWalk]
  generalize decide (m.globalX x < m.shape.topology.separatrix) = side
  obtain ⟨k, inside, here⟩ := Topology.track_place side proper low high
  have long := Topology.track_length_le side proper high
  refine walkRows_ended ⟨(m.shape.topology.track side (m.globalY m.ystart)).length.toNat, by omega, by omega,
    fun row reached => ?_⟩ more
  have walked := Topology.walk_track proper high inside up
    (m.shape.topology.track side (m.globalY m.ystart)).length.toNat
  rw [here, reached, eq_comm, Option.map_eq_some_iff] at walked
  obtain ⟨place, moved, rfl⟩ := walked
  rw [Topology.Track.step_length inside up moved, here]

end Line

theorem mem_ascending {xs : List Int} {k : Int} : k ∈ ascending xs ↔ k ∈ xs := by
  rw [ascending, List.mem_eraseDups, List.mem_mergeSort]

theorem pairwise_ascending (xs : List Int) : (ascending xs).Pairwise (· < ·) := by
  have rising (sorted : List Int) (order : sorted.Pairwise (· ≤ ·)) : sorted.eraseDups.Pairwise (· < ·) := by
    induction many : sorted.length using Nat.strongRecOn generalizing sorted with
    | ind count ih =>
      cases sorted with
      | nil => simp
      | cons k rest =>
        obtain ⟨least, order⟩ := List.pairwise_cons.mp order
        rw [List.eraseDups_cons]
        have fewer : (rest.filter fun b => !b == k).length < count :=
          Nat.lt_of_le_of_lt (List.length_filter_le ..) (many ▸ Nat.lt_succ_self rest.length)
        refine List.pairwise_cons.mpr ⟨fun b member => ?_, ih _ fewer _ (order.filter _) rfl⟩
        obtain ⟨among, apart⟩ := List.mem_filter.mp (List.mem_eraseDups.mp member)
        exact lt_of_le_of_ne (least b among) fun same => by simp [same] at apart
  exact rising _ (List.pairwise_mergeSort' (· ≤ ·) xs)

end Mesh

namespace Layout

variable {l : Layout α} {meshes : Nat → Mesh α} {i j : Nat}

/-- The field line through the first row of a block. -/
def line (l : Layout α) (i : Nat) (inner : Bool) : Topology.Track := l.shape.topology.track inner (l.bottom i)

/-- The ranks that hold the field line of a block between them. -/
def lineRanks (l : Layout α) (i : Nat) (inner : Bool) : List Int :=
  ((List.range l.count).filter fun j => l.column j = l.column i ∧ l.line j inner = l.line i inner).map Nat.cast

theorem mem_lineRanks {inner : Bool} {r : Int} : r ∈ l.lineRanks i inner ↔
    ∃ j < l.count, r = (j : Int) ∧ l.column j = l.column i ∧ l.line j inner = l.line i inner := by
  simp only [lineRanks, List.mem_map, List.mem_filter, List.mem_range, decide_eq_true_eq]
  constructor
  · intro found
    obtain ⟨j, ⟨inside, same⟩, rfl⟩ := found
    exact ⟨j, inside, rfl, same⟩
  · intro found
    obtain ⟨j, inside, rfl, same⟩ := found
    exact ⟨j, ⟨inside, same⟩, rfl⟩

theorem natCast_mem_lineRanks {inner : Bool} : (j : Int) ∈ l.lineRanks i inner ↔
    j < l.count ∧ l.column j = l.column i ∧ l.line j inner = l.line i inner := by
  rw [mem_lineRanks]
  constructor
  · intro found
    obtain ⟨k, inside, same, whole⟩ := found
    obtain rfl := Int.natCast_inj.mp same
    exact ⟨inside, whole⟩
  · intro found
    exact ⟨j, found.1, rfl, found.2⟩

theorem pairwise_lineRanks (l : Layout α) (i : Nat) (inner : Bool) : (l.lineRanks i inner).Pairwise (· < ·) :=
  List.pairwise_map.mpr ((List.pairwise_lt_range.filter _).imp Int.ofNat_lt.mpr)

/-- A block has at least one row of its line. -/
theorem line_length_pos (inside : i < l.count) (inner : Bool) : 0 < (l.line i inner).length := by
  have tall := bottom_range inside
  obtain ⟨k, place, -⟩ := Topology.track_place inner l.proper (show 0 ≤ l.bottom i by omega)
    (show l.bottom i < l.shape.ny by omega)
  exact Int.lt_of_le_of_lt place.1 place.2

/-- The ranks of a line are the same for all of them. -/
theorem lineRanks_eq {inner : Bool} (member : (j : Int) ∈ l.lineRanks i inner) : l.lineRanks j inner = l.lineRanks i inner := by
  obtain ⟨-, column, line⟩ := natCast_mem_lineRanks.mp member
  rw [lineRanks, lineRanks, column, line]

theorem yPart_eq {m : Mesh α} (given : l.Assigns i m) : m.yPart = l.rows := by
  obtain ⟨-, _, _, _, _, _, -, -, rfl⟩ := given
  rfl

variable (words : l.InWords) (given : ∀ i < l.count, l.Assigns i (meshes i)) (inside : i < l.count)
include words given inside

theorem globalY_start : (meshes i).globalY (meshes i).ystart = l.bottom i := by
  have tall := bottom_range inside
  have top := yend_eq words (given i inside)
  have start := (start_eq (given i inside)).2
  rw [globalY_eq words (given i inside) (Int.le_refl _) (by omega), start]
  omega

theorem globalY_range {y : Int} (own : (meshes i).ystart ≤ y ∧ y ≤ (meshes i).yend) :
    0 ≤ (meshes i).globalY y ∧ (meshes i).globalY y < l.shape.ny := by
  have tall := bottom_range inside
  have top := yend_eq words (given i inside)
  have start := (start_eq (given i inside)).2
  rw [globalY_eq words (given i inside) own.1 own.2]
  omega

/-- All rows of a block lie on one line. -/
theorem track_globalY {y : Int} (own : (meshes i).ystart ≤ y ∧ y ≤ (meshes i).yend) (inner : Bool) :
    l.shape.topology.track inner ((meshes i).globalY y) = l.line i inner := by
  have tall := bottom_range inside
  have top := yend_eq words (given i inside)
  have start := (start_eq (given i inside)).2
  have up : Topology.ahead true (meshes i).ystart (y - (meshes i).ystart).toNat = y := by
    rw [Topology.ahead, if_pos rfl]
    omega
  have walked : l.shape.topology.walk true inner (y - (meshes i).ystart).toNat ((meshes i).globalY (meshes i).ystart) =
      some ((meshes i).globalY (Topology.ahead true (meshes i).ystart (y - (meshes i).ystart).toNat)) :=
    walk_inside words (given i inside) (by omega) (by rw [up]; omega)
  rw [up, globalY_start words given inside] at walked
  exact (Topology.onLine_iff l.proper (by omega) (globalY_range words given inside own)).mp ⟨_, _, walked⟩

theorem track_of_bound {r : Int} (low : l.rows.bound (l.row i) ≤ r) (high : r < l.rows.bound (l.row i + 1)) (inner : Bool) :
    l.shape.topology.track inner r = l.line i inner := by
  have top := yend_eq words (given i inside)
  have start := (start_eq (given i inside)).2
  simp only [height, bottom] at top
  have own : (meshes i).ystart ≤ r - l.bottom i + l.shape.myg ∧ r - l.bottom i + l.shape.myg ≤ (meshes i).yend := by
    simp only [bottom]
    omega
  have here := track_globalY words given inside own inner
  rwa [globalY_eq words (given i inside) own.1 own.2, Int.add_sub_cancel, Int.sub_add_cancel] at here

/-- The ranks of a line are those that have rows of it. -/
theorem mem_lineRanks_iff {inner : Bool} {r : Int} : r ∈ l.lineRanks i inner ↔
    ∃ j < l.count, r = (j : Int) ∧ (meshes j).pex = (meshes i).pex ∧ ∃ y, (meshes j).ystart ≤ y ∧ y ≤ (meshes j).yend ∧
      l.shape.topology.OnLine inner ((meshes i).globalY (meshes i).ystart) ((meshes j).globalY y) := by
  have start := globalY_start words given inside
  have tall := bottom_range inside
  have columns (j : Nat) (within : j < l.count) : (meshes j).pex = (meshes i).pex ↔ l.column j = l.column i := by
    rw [pex_eq (given j within), pex_eq (given i inside), Int.natCast_inj]
  rw [mem_lineRanks, start]
  constructor
  · intro found
    obtain ⟨j, within, rfl, column, line⟩ := found
    have tall' := bottom_range within
    have top := yend_eq words (given j within)
    have own := (start_eq (given j within)).2
    refine ⟨j, within, rfl, (columns j within).mpr column, (meshes j).ystart, Int.le_refl _, by omega, ?_⟩
    rw [globalY_start words given within]
    exact (Topology.onLine_iff l.proper (by omega) (by omega)).mpr line
  · intro found
    obtain ⟨j, within, rfl, column, y, low, high, onLine⟩ := found
    refine ⟨j, within, rfl, (columns j within).mp column, ?_⟩
    rw [← track_globalY words given within ⟨low, high⟩]
    exact (Topology.onLine_iff l.proper (by omega) (globalY_range words given within ⟨low, high⟩)).mp onLine

omit words in
theorem procRank_eq (number : (l.count : Int) ≤ Text.wordEnd) (within : j < l.count) (column : l.column j = l.column i) :
    (meshes i).procRank (meshes i).pex (l.row j) = j := by
  obtain ⟨-, _, _, _, _, _, -, -, same⟩ := given i inside
  have place : Mesh.rankAt l.columns.parts (l.column i) (l.row j) = (j : Int) :=
    (l.rankAt_eq_iff (l.column_lt i) (row_lt within)).mpr ⟨within, column, rfl⟩
  rw [same]
  change Index.wrap (Mesh.rankAt l.columns.parts (l.column i) (l.row j)) = j
  rw [place]
  exact Index.wrap_of_fits (by rw [Index.wordEnd_eq]; omega) (by omega)

theorem lineRow_eq (x : Int) : (meshes i).LineRow x =
    l.shape.topology.OnLine (decide ((meshes i).globalX x < l.shape.topology.separatrix)) (l.bottom i) := by
  funext row
  rw [Mesh.LineRow, shape_eq (given i inside), globalY_start words given inside]

theorem lineLength_eq (x : Int) : (meshes i).lineLength x =
    (l.line i (decide ((meshes i).globalX x < l.shape.topology.separatrix))).length := by
  rw [Mesh.lineLength, shape_eq (given i inside), globalY_start words given inside, Topology.lineLength_eq, line]

theorem mem_lineRows {x r : Int} : r ∈ (meshes i).lineRows x ↔
    l.shape.topology.OnLine (decide ((meshes i).globalX x < l.shape.topology.separatrix)) (l.bottom i) r := by
  have here := shape_eq (given i inside)
  have start := globalY_start words given inside
  have tall := bottom_range inside
  rw [Mesh.mem_lineRows (by rw [here]; exact l.proper) (by rw [here]) (by omega) (by omega),
    lineRow_eq words given inside]

/-- Every row of the field line of a block is in a block of one of its ranks. -/
theorem exists_owner {inner : Bool} {r : Int} (onLine : l.shape.topology.OnLine inner (l.bottom i) r) :
    ∃ j : Nat, (j : Int) ∈ l.lineRanks i inner ∧ l.rows.bound (l.row j) ≤ r ∧ r < l.rows.bound (l.row j + 1) := by
  have tall := bottom_range inside
  obtain ⟨k, within, own⟩ := Topology.track_place inner l.proper (show 0 ≤ l.bottom i by omega)
    (show l.bottom i < l.shape.ny by omega)
  obtain ⟨k', within', rfl⟩ := (own ▸ Topology.onLine_track l.proper (by omega) within r).mp onLine
  obtain ⟨range, line⟩ := Topology.track_row l.proper (by omega) within'
  obtain ⟨piece, inRows, low, high⟩ := Index.Partition.exists_piece l.rows_nonneg range.1 (by rw [l.allRows]; exact range.2)
  obtain ⟨j, inside', column, rfl⟩ := l.exists_rank (l.column_lt i) inRows
  exact ⟨j, natCast_mem_lineRanks.mpr ⟨inside', column, (track_of_bound words given inside' low high inner).symm.trans line⟩,
    low, high⟩

/-- The ranks that a rank finds on a field line. -/
theorem yRanks_eq (aimed : l.rows.Aimed) (number : (l.count : Int) ≤ Text.wordEnd) (x : Int) : (meshes i).yRanks x =
    .ok (l.lineRanks i (decide ((meshes i).globalX x < l.shape.topology.separatrix))) := by
  have met (r : Int) := mem_lineRows words given inside (x := x) (r := r)
  generalize decide ((meshes i).globalX x < l.shape.topology.separatrix) = inner at met ⊢
  have owned (r : Int) (member : r ∈ (meshes i).lineRows x) := exists_owner words given inside ((met r).mp member)
  choose! rank listed low high using owned
  have numbered (j : Nat) (listed : (j : Int) ∈ l.lineRanks i inner) :
      (meshes i).procRank (meshes i).pex (l.row j) = j := by
    obtain ⟨within, column, -⟩ := natCast_mem_lineRanks.mp listed
    exact procRank_eq given inside number within column
  have owner (r : Int) (member : r ∈ (meshes i).lineRows x) :
      (meshes i).yPart.owner r = .ok (some (l.row (rank r))) := by
    have within := row_lt (natCast_mem_lineRanks.mp (listed r member)).1
    have first := l.bound_range (Nat.le_of_lt within)
    have last := l.bound_range (Nat.succ_le_of_lt within)
    rw [Nat.succ_eq_add_one] at last
    have above := low r member
    have below := high r member
    rw [yPart_eq (given i inside)]
    exact aimed.owner_eq (by omega) (by rw [l.allRows]; omega) within above below
  rw [Mesh.yRanks_eq_mapM]
  refine Outcome.bind_eq_ok.mpr ⟨((meshes i).lineRows x).map fun r => (l.row (rank r) : Int),
    mapM_ok fun r member => ?_, congrArg Except.ok (List.Pairwise.eq_of_mem_iff ?_ (l.pairwise_lineRanks i inner) fun r => ?_)⟩
  · rw [Mesh.rowOwner, owner r member]
    rfl
  · refine List.pairwise_map.mpr ((Mesh.pairwise_ascending _).imp_of_mem fun {a b} first second less => ?_)
    obtain ⟨r, member, rfl⟩ := List.mem_map.mp (Mesh.mem_ascending.mp first)
    obtain ⟨r', member', rfl⟩ := List.mem_map.mp (Mesh.mem_ascending.mp second)
    rw [numbered _ (listed r member), numbered _ (listed r' member')]
    exact Int.ofNat_lt.mpr (Nat.lt_of_div_lt_div (Int.ofNat_lt.mp less))
  · rw [List.mem_map]
    constructor
    · intro reached
      obtain ⟨k, member, rfl⟩ := reached
      obtain ⟨r, onLine, rfl⟩ := List.mem_map.mp (Mesh.mem_ascending.mp member)
      rw [numbered _ (listed r onLine)]
      exact listed r onLine
    · intro member
      obtain ⟨j, inside', rfl, column, line⟩ := mem_lineRanks.mp member
      have tall := bottom_range inside
      have tall' := bottom_range inside'
      have onLine := (met (l.bottom j)).mpr ((Topology.onLine_iff l.proper (by omega) (by omega)).mpr line)
      have own : l.row (rank (l.bottom j)) = l.row j := Index.Partition.piece_unique l.rows_nonneg (low _ onLine)
        (high _ onLine) (Int.le_refl _) (by simp only [height, bottom] at tall' ⊢; omega)
      exact ⟨_, Mesh.mem_ascending.mpr (List.mem_map_of_mem onLine), own ▸ numbered j member⟩

end Layout
end HaloMesh
