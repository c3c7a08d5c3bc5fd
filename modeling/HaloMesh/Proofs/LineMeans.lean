import HaloMesh.Rank
import HaloMesh.Proofs.ColumnGroups
import HaloMesh.Proofs.GroupSums
import HaloMesh.Proofs.LineDerivatives

/-! Averages along field lines on one rank. In the meeting of a group the rank gives the sums of its columns, and spreads the
means that come back over their rows. -/

namespace HaloMesh
open Transport Program

variable {α : Type}

theorem Outcome.foldlM_ok {β σ : Type} {step : σ → β → Outcome σ} (next : σ → β → σ) {items : List β}
    (each : ∀ s, ∀ item ∈ items, step s item = .ok (next s item)) (s : σ) :
    items.foldlM step s = .ok (items.foldl next s) := by
  induction items generalizing s with
  | nil => rfl
  | cons item rest ih =>
    rw [List.foldlM_cons, each s item List.mem_cons_self]
    exact ih (fun s other later => each s other (List.mem_cons_of_mem _ later)) _

theorem getElem?_flatten_uniform {β : Type} {parts : List (List β)} {n : Nat} (sizes : ∀ part ∈ parts, part.length = n)
    {k z : Nat} (inside : z < n) : parts.flatten[k * n + z]? = (parts[k]?).bind fun part => part[z]? := by
  induction parts generalizing k with
  | nil => simp
  | cons part rest ih =>
    have size := sizes part List.mem_cons_self
    cases k with
    | zero =>
      rw [List.flatten_cons, Nat.zero_mul, Nat.zero_add, List.getElem?_append_left (by omega)]
      rfl
    | succ k =>
      have later := ih (fun other member => sizes other (List.mem_cons_of_mem _ member)) (k := k)
      have moved : (k + 1) * n + z - part.length = k * n + z := by
        rw [Nat.succ_mul]
        omega
      rw [List.flatten_cons, List.getElem?_append_right (by rw [Nat.succ_mul]; omega), moved, later]
      rfl

theorem length_flatten_uniform {β : Type} {parts : List (List β)} {n : Nat} (sizes : ∀ part ∈ parts, part.length = n) :
    parts.flatten.length = parts.length * n := by
  rw [List.length_flatten, List.map_congr_left (g := fun _ => n) sizes]
  simp

namespace Field

variable {f : Field α} {x y z : Int}

theorem foldlM_writeAt {γ : Type} (place : γ → Int) (value : γ → α) (items : List γ) (data : Array α)
    (inside : ∀ p ∈ items, 0 ≤ place p ∧ place p < data.size) :
    ∃ data', items.foldlM (fun data p => writeAt data (place p) (value p)) data = Except.ok data' ∧
      data'.size = data.size ∧
      (∀ n : Nat, ∀ p ∈ items, place p = n → (∀ q ∈ items, place q = n → value q = value p) →
        data'[n]? = some (value p)) ∧
      ∀ n : Nat, (∀ p ∈ items, place p ≠ n) → data'[n]? = data[n]? := by
  induction items generalizing data with
  | nil => exact ⟨data, rfl, rfl, by simp, fun _ _ => rfl⟩
  | cons p rest ih =>
    have here := inside p List.mem_cons_self
    have size : (data.setIfInBounds (place p).toNat (value p)).size = data.size := Array.size_setIfInBounds
    obtain ⟨data', folded, same, written, left⟩ :=
      ih _ fun q later => (size ▸ inside q (List.mem_cons_of_mem _ later))
    refine ⟨data', ?_, same.trans size, fun n q member at_ agreed => ?_, fun n away => ?_⟩
    · rw [List.foldlM_cons, writeAt, if_pos here]
      exact folded
    · by_cases later : ∃ q' ∈ rest, place q' = n
      · obtain ⟨q', member', at'⟩ := later
        have values := agreed q' (List.mem_cons_of_mem _ member') at'
        rw [← values]
        exact written n q' member' at' fun r among there =>
          (agreed r (List.mem_cons_of_mem _ among) there).trans values.symm
      · have first : q = p := (List.mem_cons.mp member).resolve_right fun among => later ⟨q, among, at_⟩
        subst first
        rw [left n fun r among there => later ⟨r, among, there⟩, at_, Int.toNat_natCast,
          Array.getElem?_setIfInBounds_self_of_lt (by omega)]
    · rw [left n fun q later => away q (List.mem_cons_of_mem _ later), Array.getElem?_setIfInBounds_ne]
      have := away p List.mem_cons_self
      omega

end Field

namespace Mesh

variable [Scalar α] {m : Mesh α} {f : Field α} {columns : List Int}

/-- The sum of a field over the interior rows of a column. -/
def columnSum (m : Mesh α) (f : Field α) (x z : Int) : α :=
  (Index.span m.ystart m.yend).foldl (fun s y => s + f.value x y z) 0

/-- What a rank gives to the sum of a group: its columns, each for every z, and the number of its rows. -/
def lineValues (m : Mesh α) (f : Field α) (columns : List Int) : Array α :=
  ((columns.map fun x => (List.range f.nz).map fun z : Nat => m.columnSum f x z).flatten ++
    [Scalar.ofInt (m.yend - m.ystart + 1)]).toArray

theorem columnSums_ok (holds : m.Holds f) (range : ∀ x ∈ columns, 0 ≤ x ∧ x < m.localNx) :
    m.columnSums f columns = .ok (m.lineValues f columns) := by
  obtain ⟨nx, ny, -⟩ := holds.sizes
  obtain ⟨-, tall⟩ := holds.guards
  obtain ⟨start, -, stop⟩ := holds.rows
  refine Outcome.bind_eq_ok.mpr ⟨_, mapM_ok fun x member => mapM_ok fun z inside =>
    Outcome.foldlM_ok (fun s y => s + f.value x y z) (fun s y row => ?_) 0, rfl⟩
  have row := Index.mem_span.mp row
  have inside := List.mem_range.mp inside
  have column := range x member
  rw [Field.get_eq holds.fits ⟨⟨by omega, by omega⟩, by omega, by omega⟩]
  rfl

theorem lineValues_parts (m : Mesh α) (f : Field α) (columns : List Int) :
    ∀ part ∈ columns.map fun x => (List.range f.nz).map fun z : Nat => m.columnSum f x z, part.length = f.nz := by
  intro part member
  obtain ⟨x, -, rfl⟩ := List.mem_map.mp member
  rw [List.length_map, List.length_range]

theorem size_lineValues : (m.lineValues f columns).size = columns.length * f.nz + 1 := by
  rw [lineValues, List.size_toArray, List.length_append, length_flatten_uniform (m.lineValues_parts f columns),
    List.length_map, List.length_singleton]

theorem lineValues_column {k z : Nat} {x : Int} (found : columns[k]? = some x) (inside : z < f.nz) :
    (m.lineValues f columns)[k * f.nz + z]? = some (m.columnSum f x z) := by
  have place := getElem?_flatten_uniform (m.lineValues_parts f columns) (k := k) inside
  have known : ((columns.map fun x => (List.range f.nz).map fun z : Nat => m.columnSum f x z).flatten)[k * f.nz + z]? =
      some (m.columnSum f x z) := by
    rw [place, List.getElem?_map, found, Option.map_some, Option.bind_some, List.getElem?_map,
      List.getElem?_range inside, Option.map_some]
  rw [lineValues, List.getElem?_toArray, List.getElem?_append_left (List.getElem?_eq_some_iff.mp known).1, known]

theorem lineValues_rows : (m.lineValues f columns)[columns.length * f.nz]? =
    some (Scalar.ofInt (m.yend - m.ystart + 1)) := by
  have length := length_flatten_uniform (m.lineValues_parts f columns)
  rw [List.length_map] at length
  rw [lineValues, List.getElem?_toArray, ← length, List.getElem?_concat_length]

/-- The means of some columns, spread over their rows. -/
theorem spreadMeans_ok (fits : f.Fits) (range : ∀ x ∈ columns, 0 ≤ x ∧ x < f.nx) (distinct : columns.Nodup)
    (sums : Array α) {data : Array α} (size : data.size = f.data.size) :
    ∃ data', spreadMeans f columns sums data = .ok data' ∧ data'.size = f.data.size ∧ ∀ x y z, f.HasPoint x y z →
      (∀ k, columns[k]? = some x → data'[(f.place x y z).toNat]? =
        some ((sums[k * f.nz + z.toNat]?).getD 0 / (sums[sums.size - 1]?).getD 0)) ∧
      (x ∉ columns → data'[(f.place x y z).toNat]? = data[(f.place x y z).toNat]?) := by
  let points : List (Int × Nat × Nat × Nat) := columns.zipIdx.flatMap fun c =>
    (List.range f.ny).flatMap fun y => (List.range f.nz).map fun z => (c.1, c.2, y, z)
  have among (p : Int × Nat × Nat × Nat) : p ∈ points ↔ columns[p.2.1]? = some p.1 ∧ p.2.2.1 < f.ny ∧ p.2.2.2 < f.nz := by
    simp only [points, List.mem_flatMap, List.mem_map, List.mem_range, List.mem_zipIdx_iff_getElem?]
    constructor
    · intro found
      obtain ⟨c, column, y, row, z, point, rfl⟩ := found
      exact ⟨column, row, point⟩
    · intro known
      exact ⟨(p.1, p.2.1), known.1, p.2.2.1, known.2.1, p.2.2.2, known.2.2, rfl⟩
  have point (p : Int × Nat × Nat × Nat) (member : p ∈ points) : f.HasPoint p.1 p.2.2.1 p.2.2.2 := by
    obtain ⟨column, row, deep⟩ := (among p).mp member
    have wide := range p.1 (List.mem_of_getElem? column)
    exact ⟨⟨wide, by omega, by omega⟩, by omega, by omega⟩
  have place (p : Int × Nat × Nat × Nat) (member : p ∈ points) :
      f.index p.1 p.2.2.1 p.2.2.2 = f.place p.1 p.2.2.1 p.2.2.2 := Field.index_eq fits (point p member)
  obtain ⟨data', folded, same, written, left⟩ := Field.foldlM_writeAt (fun p => f.index p.1 p.2.2.1 p.2.2.2)
    (fun p => (sums[p.2.1 * f.nz + p.2.2.2]?).getD 0 / (sums[sums.size - 1]?).getD 0) points data fun p member => by
      rw [place p member, size]
      exact Field.place_range fits (point p member)
  refine ⟨data', folded, same.trans size, fun x y z has => ⟨fun k found => ?_, fun away => ?_⟩⟩
  · obtain ⟨low, -⟩ := Field.place_range fits has
    obtain ⟨⟨-, lowY, highY⟩, lowZ, highZ⟩ := has
    obtain ⟨y, rfl⟩ := Int.eq_ofNat_of_zero_le lowY
    obtain ⟨z, rfl⟩ := Int.eq_ofNat_of_zero_le lowZ
    have member : (x, k, y, z) ∈ points := (among _).mpr ⟨found, Int.ofNat_lt.mp highY, Int.ofNat_lt.mp highZ⟩
    refine written _ _ member (by rw [place _ member, Int.toNat_of_nonneg low]) fun q other there => ?_
    -- a point is written once, for its column is in the list once
    rw [place q other, Int.toNat_of_nonneg low] at there
    obtain ⟨column, -, deep⟩ := Field.point_inj (point _ member) (point q other) there
    have first := ((among q).mp other).1
    have equal : q.2.1 = k :=
      (List.getElem?_inj (List.getElem?_eq_some_iff.mp first).1 distinct).mp (first.trans (column ▸ found.symm))
    rw [equal, Int.natCast_inj.mp deep]
  · refine left _ fun p member there => away ?_
    rw [place p member, Int.toNat_of_nonneg (Field.place_range fits has).1] at there
    rw [← (Field.point_inj has (point p member) there).1]
    exact List.mem_of_getElem? ((among p).mp member).1

end Mesh

namespace RankM
open Meeting (script met)

theorem bind_path {β γ : Type} {c : RankM α β} {next : β → RankM α γ} {r r' : Rank α} {b : β}
    {first second : List (Event (Array α))} {q : Program (Array α) (Outcome γ × Rank α)}
    (before : Path (c.run.run r) first (.finished (.ok b, r'))) (after : Path ((next b).run.run r') second q) :
    Path ((c >>= next).run.run r) (first ++ second) q := by
  rw [run_bind]
  exact before.bind_finished after

theorem ofOutcome_path {β : Type} {outcome : Outcome β} {b : β} (known : outcome = .ok b) (r : Rank α) :
    Path ((ofOutcome outcome).run.run r) [] (.finished (.ok b, r)) := by
  rw [known]
  exact .here _

theorem tryTalk_path {β : Type} {p : Program (Array α) (Except Error β)} {b : β} {events : List (Event (Array α))}
    (path : Path p events (.finished (.ok b))) (r : Rank α) : Path ((tryTalk p).run.run r) events (.finished (.ok b, r)) := by
  have talked : Path ((talk p).run.run r) (events ++ []) (.finished (.ok (.ok b), r)) := by
    rw [talk_run]
    exact path.bind_finished (.here _)
  rw [← List.append_nil events, ← List.append_nil (events ++ [])]
  exact bind_path talked (.here _)

theorem labelled_path {β : Type} {c : RankM α β} {b : β} {r r' : Rank α} {events : List (Event (Array α))}
    (path : Path (c.run.run r) events (.finished (.ok b, r'))) (activity : Activity) :
    Path ((labelled activity c).run.run r) events (.finished (.ok b, r')) := by
  rw [← List.append_nil events]
  exact path.bind_finished (.here _)

variable [Scalar α]

/-- The part of one group in an average. -/
def addGroup (m : Mesh α) (f : Field α) (g : Mesh.ColumnGroup) (data : Array α) : RankM α (ForInStep (Array α)) := do
  let values ← ofOutcome (m.columnSums f g.columns)
  let sums ← labelled .averaging (tryTalk (g.communicator.allReduceSum values Mesh.averageTag))
  let data ← ofOutcome (Mesh.spreadMeans f g.columns sums data)
  return .yield data

theorem averageY_eq (f : Field α) : averageY f = (do
    let m ← mesh
    let groups ← ofOutcome m.columnGroups
    let data ← forIn groups f.zeroLike.data (addGroup m f)
    ofOutcome (f.withData data)) := rfl

/-- The values that the members of a group have added up. -/
def groupSums (values : List Int → Int → Array α) (rank : Int) (ranks : List Int) : Array α :=
  Communicator.orderedSum (values ranks rank).size (ranks.map (values ranks))

/-- The mean in one column of a group. -/
def groupMean (values : List Int → Int → Array α) (rank : Int) (ranks : List Int) (place : Nat) : α :=
  ((groupSums values rank ranks)[place]?).getD 0 /
    ((groupSums values rank ranks)[(groupSums values rank ranks).size - 1]?).getD 0

/-- The groups of a rank, which all members enter with values of one length. -/
structure Attends (m : Mesh α) (f : Field α) (e : Endpoint) (values : List Int → Int → Array α) (g : Mesh.ColumnGroup) :
    Prop where
  endpoint : g.communicator.endpoint = e
  reach : ∀ r ∈ g.communicator.ranks, e.reaches r = true
  own : values g.communicator.ranks e.rank = m.lineValues f g.columns
  sizes : ∀ r ∈ g.communicator.ranks,
    (values g.communicator.ranks r).size = (values g.communicator.ranks e.rank).size
  range : ∀ x ∈ g.columns, 0 ≤ x ∧ x < m.localNx
  distinct : g.columns.Nodup

variable {m : Mesh α} {f : Field α} {e : Endpoint} {values : List Int → Int → Array α} {r : Rank α}

theorem addGroup_path (holds : m.Holds f) {g : Mesh.ColumnGroup} (attends : Attends m f e values g) {data : Array α}
    (size : data.size = f.data.size) (past : List (List Int)) :
    ∃ data', Path ((addGroup m f g data).run.run r)
        (Meeting.requests Mesh.averageTag values e.rank past g.communicator.ranks) (.finished (.ok (.yield data'), r)) ∧
      data'.size = f.data.size ∧ ∀ x y z, f.HasPoint x y z →
        (∀ k, g.columns[k]? = some x → data'[(f.place x y z).toNat]? =
          some (groupMean values e.rank g.communicator.ranks (k * f.nz + z.toNat))) ∧
        (x ∉ g.columns → data'[(f.place x y z).toNat]? = data[(f.place x y z).toNat]?) := by
  obtain ⟨nx, -⟩ := holds.sizes
  have wide (x : Int) (member : x ∈ g.columns) : 0 ≤ x ∧ x < f.nx := nx ▸ attends.range x member
  obtain ⟨data', spread, same, points⟩ := Mesh.spreadMeans_ok holds.fits wide attends.distinct
    (groupSums values e.rank g.communicator.ranks) size
  refine ⟨data', ?_, same, points⟩
  have met := g.communicator.allReduceSum_path (values g.communicator.ranks) Mesh.averageTag
    (fun other => met e.rank other past) (attends.endpoint ▸ attends.reach) (attends.endpoint ▸ attends.sizes)
  have given : m.columnSums f g.columns = .ok (values g.communicator.ranks e.rank) := by
    rw [Mesh.columnSums_ok holds attends.range, attends.own]
  rw [attends.endpoint] at met
  rw [← List.nil_append (Meeting.requests Mesh.averageTag values e.rank past g.communicator.ranks),
    ← List.append_nil (Meeting.requests Mesh.averageTag values e.rank past g.communicator.ranks)]
  refine bind_path (ofOutcome_path given r) (bind_path (labelled_path (tryTalk_path met r) .averaging) ?_)
  rw [← List.nil_append ([] : List (Event (Array α)))]
  exact bind_path (ofOutcome_path spread r) (.here _)

/-- A rank goes through its groups, and each column gets its mean in the group that it belongs to. -/
theorem forIn_path (holds : m.Holds f) {groups : List Mesh.ColumnGroup} (attends : ∀ g ∈ groups, Attends m f e values g)
    (apart : groups.Pairwise fun g h => ∀ x ∈ g.columns, x ∉ h.columns) {data : Array α} (size : data.size = f.data.size)
    (past : List (List Int)) :
    ∃ data', Path ((forIn groups data (addGroup m f)).run.run r)
        (script Mesh.averageTag values e.rank past (groups.map fun g => g.communicator.ranks))
        (.finished (.ok data', r)) ∧
      data'.size = f.data.size ∧ ∀ x y z, f.HasPoint x y z →
        (∀ g ∈ groups, ∀ k, g.columns[k]? = some x → data'[(f.place x y z).toNat]? =
          some (groupMean values e.rank g.communicator.ranks (k * f.nz + z.toNat))) ∧
        ((∀ g ∈ groups, x ∉ g.columns) → data'[(f.place x y z).toNat]? = data[(f.place x y z).toNat]?) := by
  induction groups generalizing data past with
  | nil => exact ⟨data, .here _, size, fun x y z _ => ⟨by simp, fun _ => rfl⟩⟩
  | cons g rest ih =>
    obtain ⟨others, apart⟩ := List.pairwise_cons.mp apart
    obtain ⟨middle, added, sizeToo, one⟩ := addGroup_path (r := r) holds (attends g List.mem_cons_self) size past
    obtain ⟨data', path, same, all⟩ := ih (fun h later => attends h (List.mem_cons_of_mem _ later)) apart sizeToo
      (past ++ [g.communicator.ranks])
    refine ⟨data', ?_, same, fun x y z has => ⟨fun h member k found => ?_, fun away => ?_⟩⟩
    · rw [List.forIn_cons, List.map_cons, script]
      exact bind_path added path
    · rcases List.mem_cons.mp member with rfl | later
      · rw [(all x y z has).2 fun h' among => others h' among x (List.mem_of_getElem? found), (one x y z has).1 k found]
      · exact (all x y z has).1 h later k found
    · rw [(all x y z has).2 fun h later => away h (List.mem_cons_of_mem _ later), (one x y z has).2 (away g List.mem_cons_self)]

/-- What one rank does for an average, and what it gets. -/
theorem averageY_path (own : r.mesh = m) (holds : m.Holds f) {groups : List Mesh.ColumnGroup}
    (grouped : m.columnGroups = .ok groups) (attends : ∀ g ∈ groups, Attends m f e values g)
    (apart : groups.Pairwise fun g h => ∀ x ∈ g.columns, x ∉ h.columns) :
    ∃ d, Path ((averageY f).run.run r)
        (script Mesh.averageTag values e.rank [] (groups.map fun g => g.communicator.ranks)) (.finished (.ok d, r)) ∧
      Field.Alike f d ∧ ∀ x y z, f.HasPoint x y z → ∀ g ∈ groups, ∀ k, g.columns[k]? = some x →
        d.value x y z = groupMean values e.rank g.communicator.ranks (k * f.nz + z.toNat) := by
  obtain ⟨data, path, size, points⟩ :=
    forIn_path (r := r) holds attends apart (Field.alike_zeroLike f).size []
  obtain ⟨d, taken⟩ := Field.withData_of_size size
  refine ⟨d, ?_, (Field.withData_ok taken).2, fun x y z has g member k found =>
    Field.value_of_data taken ((points x y z has).1 g member k found)⟩
  rw [averageY_eq, ← List.nil_append (script Mesh.averageTag values e.rank [] (groups.map fun g => g.communicator.ranks))]
  have known : r.mesh.columnGroups = .ok groups := own ▸ grouped
  subst own
  have asked : Path ((mesh : RankM α (Mesh α)).run.run r) [] (.finished (.ok r.mesh, r)) := .here _
  refine bind_path asked ?_
  rw [← List.nil_append (script Mesh.averageTag values e.rank [] (groups.map fun g => g.communicator.ranks)),
    ← List.append_nil (script Mesh.averageTag values e.rank [] (groups.map fun g => g.communicator.ranks))]
  exact bind_path (ofOutcome_path known r) (bind_path path (ofOutcome_path taken r))

end RankM
end HaloMesh
