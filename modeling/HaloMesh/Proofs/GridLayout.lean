import HaloMesh.Mesh.Load
import HaloMesh.Proofs.BalancedPieces
import HaloMesh.Proofs.RowConnections

/-! A grid with a split that has passed its checks. Neither the grid nor the split depends on who
asks, so all ranks have the same layout, and each of them takes its own block from it. -/

namespace HaloMesh
open Index (Partition)
open Transport (Endpoint)

namespace Outcome

variable {β γ σ : Type}

theorem bind_eq_ok {r : Outcome β} {next : β → Outcome γ} {c : γ} :
    (r >>= next) = .ok c ↔ ∃ b, r = .ok b ∧ next b = .ok c := by
  cases r <;> simp [bind, Except.bind]

theorem guard_eq_ok {condition : Prop} [Decidable condition] {e : Error} {next : γ → Outcome β} {rest : Outcome β}
    {b : β} : (if condition then (fail e : Outcome γ) >>= next else rest) = .ok b ↔ ¬ condition ∧ rest = .ok b := by
  split <;> simp_all [fail, bind, Except.bind]

theorem returned_eq_ok {r : Except Error β} {b : β} : r.mapError Failure.returned = .ok b ↔ r = .ok b := by
  cases r <;> simp [Except.mapError]

/-- A loop without an early exit keeps whatever each of its rounds keeps. -/
theorem forIn_ok {items : List β} {init last : σ} {body : β → σ → Outcome (ForInStep σ)}
    (Inv : List β → σ → Prop) (begins : Inv [] init)
    (round : ∀ done item s step, Inv done s → body item s = .ok step →
      ∃ s', step = .yield s' ∧ Inv (done ++ [item]) s')
    (ended : forIn items init body = .ok last) : Inv items last := by
  suffices along : ∀ done s, Inv done s → forIn items s body = .ok last → Inv (done ++ items) last by
    simpa using along [] init begins ended
  clear begins ended
  induction items with
  | nil =>
    intro done s inv ended
    obtain rfl : s = last := by simpa [pure, Except.pure] using ended
    simpa using inv
  | cons item rest ih =>
    intro done s inv ended
    rw [List.forIn_cons, bind_eq_ok] at ended
    obtain ⟨step, passed, later⟩ := ended
    obtain ⟨s', rfl, kept⟩ := round done item s step inv passed
    simpa using ih (done ++ [item]) s' kept later

end Outcome

variable {α : Type}

/-- A grid divided into blocks of columns and blocks of rows. Every block has as many cells as there
are guard cells and at least one, and every branch cut starts a block of rows. -/
structure Layout (α : Type) where
  shape : GridShape α
  columns : Partition
  rows : Partition
  guards : 0 ≤ shape.mxg ∧ 0 ≤ shape.myg
  depth : 1 ≤ shape.nz
  width : Index.wrap (2 * shape.mxg) < shape.nx ∧ shape.nx ≤ Index.storageLimit
  proper : shape.topology.Proper shape.ny
  allColumns : columns.total = shape.mx
  allRows : rows.total = shape.ny
  wide : max 1 shape.mxg ≤ columns.share
  tall : max 1 shape.myg ≤ rows.share
  aligned : ∀ cut ∈ shape.topology.cuts, ∃ k < rows.parts, rows.bound k = cut

theorem Index.wrap_lt (n : Int) : Index.wrap n < Text.wordEnd := by
  have half : (Nat.pow 2 63 : Nat) = 9223372036854775808 := rfl
  have full : (Nat.pow 2 64 : Nat) = 18446744073709551616 := rfl
  simp only [Text.wordEnd, half, Index.wrap, Int.bmod, full]
  omega

theorem Index.Partition.make_ok {parts total : Int} {p : Partition} (made : Partition.make parts total = .ok p) :
    (p.parts : Int) = parts ∧ p.total = total := by
  simp only [Partition.make] at made
  split at made
  · split at made
    · cases made
    · cases made
      exact ⟨Int.toNat_of_nonneg (by omega), rfl⟩
  · cases made

namespace GridShape

variable [Scalar α] {g : GridShape α} {source : GridSource α} {options : Options α}

theorem makeSingleNull_proper {ny separatrix leg1 leg2 : Int} {t : Topology} (words : 1 ≤ ny ∧ ny ≤ Index.greatest)
    (made : Topology.makeSingleNull ny separatrix leg1 leg2 = .ok t) : t.Proper ny := by
  have before : Index.previous ny = ny - 1 :=
    Index.previous_of_lt (by rw [Index.least, Index.wordEnd_eq]; omega)
  simp only [Topology.makeSingleNull, before] at made
  split at made
  · cases made
  · split at made
    · cases made
    next ordered paired =>
      cases made
      refine ⟨words, rfl, ?_⟩
      simp only [ne_eq, eq_iff_iff, not_not] at paired
      exact ⟨by omega, by omega, by omega, paired⟩

theorem gridWhole_lt {name : String} {dflt n : Int} (read : gridWhole source options name dflt = .ok n) :
    n < Text.wordEnd := by
  simp only [gridWhole] at read
  split at read
  · cases stored : source.scalar name with
    | error e => simp [stored, Except.map] at read
    | ok x =>
      simp only [stored, Except.map, Except.ok.injEq] at read
      exact read ▸ Index.wrap_lt _
  · cases read
    exact Index.wrap_lt _

omit [Scalar α] in
theorem readShiftAngle_stored {nx : Int} {angles : Option (Array α)}
    (read : readShiftAngle source nx = .ok angles) : nx ≤ Index.storageLimit := by
  simp only [readShiftAngle] at read
  split at read
  · cases read
  · omega

theorem readTopology_proper {nx ny : Int} {t : Topology} (words : 1 ≤ ny ∧ ny ≤ Index.greatest)
    (read : readTopology source options nx ny = .ok t) : t.Proper ny := by
  simp only [readTopology, bind, Except.bind, pure, Except.pure] at read
  repeat' split at read
  all_goals first
    | cases read; exact ⟨words, rfl⟩
    | exact makeSingleNull_proper words read
    | cases read

/-- The separatrix is a word, and without legs it does not lie before the first column. -/
theorem readTopology_separatrix {nx ny : Int} {t : Topology} (words : 1 ≤ ny ∧ ny ≤ Index.greatest)
    (read : readTopology source options nx ny = .ok t) :
    t.separatrix < Text.wordEnd ∧ (t.cuts ≠ [] ∨ 0 ≤ t.separatrix) := by
  have flat (periodic : Bool) : (Topology.rectangular ny periodic).separatrix < Text.wordEnd ∧
      ((Topology.rectangular ny periodic).cuts ≠ [] ∨ 0 ≤ (Topology.rectangular ny periodic).separatrix) :=
    ⟨by rw [Topology.separatrix, Index.wordEnd_eq]; decide, .inr (Int.le_refl 0)⟩
  simp only [readTopology, bind, Except.bind, pure, Except.pure] at read
  split at read
  · cases read
  next ix column =>
    split at read
    · cases read
    next leg1 _ =>
      split at read
      · cases read
      next leg2 _ =>
        simp only [Bool.and_eq_true, decide_eq_true_eq] at read
        split at read
        · cases read; exact flat _
        split at read
        · cases read; exact flat _
        split at read
        · cases read; exact flat _
        next _ _ inside =>
          have proper := makeSingleNull_proper words read
          obtain rfl : Topology.singleNull ny ix leg1 leg2 = t := by
            simp only [Topology.makeSingleNull] at read
            split at read
            · cases read
            · split at read
              · cases read
              · exact Except.ok.inj read
          obtain ⟨-, -, -, -, last, paired⟩ := proper
          refine ⟨gridWhole_lt column, ?_⟩
          by_cases legged : 0 ≤ leg1
          · refine .inl ?_
            rw [Topology.cuts, if_pos legged]
            simp
          · exact .inr (by simp only [Topology.separatrix]; omega)

theorem read_separatrix {warnings : List String} (read : GridShape.read source options = .ok (g, warnings)) :
    g.topology.separatrix < Text.wordEnd ∧ (g.topology.cuts ≠ [] ∨ 0 ≤ g.topology.separatrix) := by
  simp only [GridShape.read, Outcome.bind_eq_ok, Outcome.guard_eq_ok, Outcome.returned_eq_ok, pure, Except.pure,
    Except.ok.injEq, Prod.mk.injEq] at read
  obtain ⟨nx, -, ny, rows, nz, -, guards, sizes, -, t, topology, angles, stored, rfl, -⟩ := read
  have words := gridWhole_lt rows
  refine readTopology_separatrix ⟨by omega, ?_⟩ topology
  simp only [Index.greatest]
  omega

/-- What reading a grid guarantees about it. -/
theorem read_ok {warnings : List String} (read : GridShape.read source options = .ok (g, warnings)) :
    (0 ≤ g.mxg ∧ 0 ≤ g.myg) ∧ 1 ≤ g.nz ∧ (Index.wrap (2 * g.mxg) < g.nx ∧ g.nx ≤ Index.storageLimit) ∧
      g.topology.Proper g.ny := by
  simp only [GridShape.read, Outcome.bind_eq_ok, Outcome.guard_eq_ok, Outcome.returned_eq_ok, pure, Except.pure,
    Except.ok.injEq, Prod.mk.injEq] at read
  obtain ⟨nx, -, ny, rows, nz, -, guards, sizes, -, t, topology, angles, stored, rfl, -⟩ := read
  have words := gridWhole_lt rows
  dsimp only
  refine ⟨by omega, by omega, ⟨by omega, readShiftAngle_stored stored⟩, readTopology_proper ⟨by omega, ?_⟩ topology⟩
  simp only [Index.greatest]
  omega

omit [Scalar α] in
theorem checkSplit_ok {nproc nxpe : Int} (proper : g.topology.Proper g.ny)
    (passed : g.checkSplit nproc nxpe = .ok ()) : ∃ columns rows, Partition.make nxpe g.mx = .ok columns ∧
      Partition.make (nproc.tdiv nxpe) g.ny = .ok rows ∧ max 1 g.mxg ≤ columns.share ∧ max 1 g.myg ≤ rows.share ∧
      ∀ cut ∈ g.topology.cuts, ∃ k < rows.parts, rows.bound k = cut := by
  simp only [GridShape.checkSplit, Outcome.bind_eq_ok, Outcome.guard_eq_ok, Partition.lastPiece_size] at passed
  obtain ⟨columns, madeColumns, rows, madeRows, wide, tall, _, walked, -⟩ := passed
  refine ⟨columns, rows, madeColumns, madeRows, by omega, by omega, ?_⟩
  have total : rows.total = g.ny := (Partition.make_ok madeRows).2
  intro cut member
  have starts := Outcome.forIn_ok
    (fun done _ => ∀ cut ∈ done, ∃ owner, rows.owner cut = .ok owner ∧
      (owner.map fun k => (rows.piece k).start).getD 0 = cut)
    (by simp) ?_ walked cut member
  · obtain ⟨owner, found, start⟩ := starts
    have inside := Topology.cut_range proper member
    cases owner with
    | none =>
      simp only [Option.map_none, Option.getD_none] at start
      omega
    | some k =>
      refine ⟨k, (Partition.owner_sound found).1, ?_⟩
      simpa [Partition.piece_eq (show 0 ≤ rows.total by omega)] using start
  · intro done item _ step sofar round
    simp only [Outcome.bind_eq_ok, Outcome.guard_eq_ok, pure, Except.pure, Except.ok.injEq] at round
    obtain ⟨owner, found, start, rfl⟩ := round
    refine ⟨_, rfl, fun cut member => ?_⟩
    rcases List.mem_append.mp member with earlier | last
    · exact sofar cut earlier
    · obtain rfl := List.mem_singleton.mp last
      exact ⟨owner, found, by simpa using start⟩

theorem chooseSplit_ok {nproc nxpe : Int} (chosen : g.chooseSplit nproc = .ok nxpe) :
    1 ≤ nxpe ∧ nproc.tmod nxpe = 0 ∧ g.checkSplit nproc nxpe = .ok () := by
  simp only [GridShape.chooseSplit, Outcome.bind_eq_ok] at chosen
  obtain ⟨⟨best, rejected⟩, walked, result⟩ := chosen
  have candidate := Outcome.forIn_ok
    (fun done (s : Option (Int × α) × List Error) => ∀ i distance, s.1 = some (i, distance) →
      i ∈ done ∧ nproc.tmod i = 0 ∧ g.checkSplit nproc i = .ok ())
    (by simp) ?_ walked
  · cases best with
    | none => cases joined : Error.join? rejected <;> simp [joined, Outcome.fail, Outcome.outOfRange] at result
    | some found =>
      obtain ⟨i, distance⟩ := found
      obtain rfl : i = nxpe := by simpa [pure, Except.pure] using result
      obtain ⟨member, divides, passed⟩ := candidate i distance rfl
      exact ⟨(Index.mem_span.mp member).1, divides, passed⟩
  · intro done item s step sofar round
    have kept : ∀ i distance, s.1 = some (i, distance) →
        i ∈ done ++ [item] ∧ nproc.tmod i = 0 ∧ g.checkSplit nproc i = .ok () := fun i distance found =>
      ⟨List.mem_append_left _ (sofar i distance found).1, (sofar i distance found).2⟩
    split at round
    next divides =>
      split at round
      · cases round
        exact ⟨_, rfl, kept⟩
      · simp [throw, throwThe, MonadExceptOf.throw, bind, Except.bind] at round
      next passed =>
        have better (distance : α) : ∀ i other, some (item, distance) = some (i, other) →
            i ∈ done ++ [item] ∧ nproc.tmod i = 0 ∧ g.checkSplit nproc i = .ok () := by
          intro i other found
          cases found
          exact ⟨by simp, divides, passed⟩
        rcases ite_eq_iff.mp round with ⟨-, round⟩ | ⟨-, round⟩
        · cases round
          exact ⟨_, rfl, better _⟩
        · cases round
          exact ⟨_, rfl, kept⟩
    next =>
      cases round
      exact ⟨_, rfl, kept⟩

theorem settleSplit_ok {nproc nxpe : Int} (settled : g.settleSplit options nproc = .ok nxpe) :
    1 ≤ nxpe ∧ nproc.tmod nxpe = 0 ∧ g.checkSplit nproc nxpe = .ok () := by
  simp only [GridShape.settleSplit] at settled
  split at settled
  · simp only [Outcome.guard_eq_ok, Outcome.bind_eq_ok, pure, Except.pure, Except.ok.injEq] at settled
    obtain ⟨divides, _, passed, same⟩ := settled
    rw [← same]
    exact ⟨by omega, by omega, passed⟩
  · exact chooseSplit_ok settled
end GridShape

namespace Layout

section Blocks

variable (l : Layout α)

def count : Nat := l.columns.parts * l.rows.parts

def column (i : Nat) : Nat := i % l.columns.parts

def row (i : Nat) : Nat := i / l.columns.parts

/-- The interior columns before a rank's block. -/
def left (i : Nat) : Int := l.columns.bound (l.column i)

/-- The rows before a rank's block. -/
def bottom (i : Nat) : Int := l.rows.bound (l.row i)

def breadth (i : Nat) : Int := l.columns.bound (l.column i + 1) - l.left i

def height (i : Nat) : Int := l.rows.bound (l.row i + 1) - l.bottom i

def link (i : Nat) (up : Bool) : Outcome Link :=
  makeLink l.shape.topology l.rows l.columns.parts (l.column i) (l.row i) (l.left i)
    (Index.wrap (l.breadth i + 2 * l.shape.mxg)) up

def block (source : GridSource α) (options : Options α) (i : Nat) (up down : Link) (defaults : Defaults) : Mesh α :=
  let nxpe : Int := l.columns.parts
  let pex : Int := l.column i
  let pey : Int := l.row i
  { shape := l.shape, source, options, endpoint := ⟨i, l.count⟩
    nxpe, nype := l.rows.parts, pex, pey, xPart := l.columns, yPart := l.rows
    localNx := Index.wrap (l.breadth i + 2 * l.shape.mxg)
    localNy := Index.wrap (l.height i + 2 * l.shape.myg)
    localNz := l.shape.nz
    xstart := l.shape.mxg
    xend := Index.wrap (l.shape.mxg + l.breadth i - 1)
    ystart := l.shape.myg
    yend := Index.wrap (l.shape.myg + l.height i - 1)
    offsetX := l.left i
    offsetY := l.bottom i - l.shape.myg
    offsetZ := 0
    xin := if 0 < pex ∨ l.shape.periodicX then some (Mesh.rankAt nxpe ((pex + nxpe - 1).tmod nxpe) pey) else none
    xout := if pex < nxpe - 1 ∨ l.shape.periodicX then some (Mesh.rankAt nxpe ((pex + 1).tmod nxpe) pey) else none
    up, down, defaults }

variable {l} in
theorem row_lt {i : Nat} (inside : i < l.count) : l.row i < l.rows.parts := Nat.div_lt_of_lt_mul inside

theorem column_lt (i : Nat) : l.column i < l.columns.parts := Nat.mod_lt _ l.columns.positive

theorem rows_nonneg : 0 ≤ l.rows.total := by
  have := Partition.total_pos (show 1 ≤ l.rows.share by have := l.tall; omega)
  omega

theorem columns_nonneg : 0 ≤ l.columns.total := by
  have := Partition.total_pos (show 1 ≤ l.columns.share by have := l.wide; omega)
  omega

variable [Scalar α]

/-- What a rank does once the split is settled. -/
def loadBlock (source : GridSource α) (options : Options α) (warnings : List String) (i : Nat) :
    Outcome (Mesh α × List String) := do
  let up ← l.link i true
  let down ← l.link i false
  let (defaults, moreWarnings) ← ((Defaults.read options).mapError .inOptions).mapError .returned
  (checkDefaultWidths l.shape defaults).mapError .returned
  let transform := transformName options
  if transform ≠ "identity" ∧ transform ≠ "shifted" then
    Outcome.fail (.config (.unknownTransform transform))
  return (l.block source options i up down defaults, warnings ++ moreWarnings)

end Blocks

variable [Scalar α] {source : GridSource α} {options : Options α} {g : GridShape α} {warnings : List String}

/-- A split that has passed the check makes a layout. -/
theorem of_checkSplit {nproc nxpe : Int} (read : GridShape.read source options = .ok (g, warnings))
    (passed : g.checkSplit nproc nxpe = .ok ()) : ∃ l : Layout α, l.shape = g ∧
      Partition.make nxpe g.mx = .ok l.columns ∧ Partition.make (nproc.tdiv nxpe) g.ny = .ok l.rows := by
  obtain ⟨guards, depth, width, proper⟩ := GridShape.read_ok read
  obtain ⟨columns, rows, madeColumns, madeRows, wide, tall, aligned⟩ := GridShape.checkSplit_ok proper passed
  have allColumns := (Partition.make_ok madeColumns).2
  have allRows := (Partition.make_ok madeRows).2
  exact ⟨⟨g, columns, rows, guards, depth, width, proper, allColumns, allRows, wide, tall, aligned⟩,
    rfl, madeColumns, madeRows⟩

/-- Every rank takes its block from one layout. -/
theorem load_eq {count : Nat} {nxpe : Int} (read : GridShape.read source options = .ok (g, warnings))
    (settled : g.settleSplit options count = .ok nxpe) : ∃ l : Layout α, l.shape = g ∧ l.count = count ∧
      ∀ i < count, Mesh.load source options ⟨i, count⟩ = l.loadBlock source options warnings i := by
  obtain ⟨positive, divides, passed⟩ := GridShape.settleSplit_ok settled
  obtain ⟨l, rfl, madeColumns, madeRows⟩ := of_checkSplit read passed
  obtain rfl : (l.columns.parts : Int) = nxpe := (Partition.make_ok madeColumns).1
  have parts : (l.rows.parts : Int) = (count : Int).tdiv l.columns.parts := (Partition.make_ok madeRows).1
  have product : l.count = count := by
    have whole := Int.mul_tdiv_add_tmod count l.columns.parts
    rw [divides, ← parts, Int.add_zero] at whole
    exact_mod_cast whole
  subst product
  refine ⟨l, rfl, rfl, fun i inside => ?_⟩
  have inColumns : l.columns.range ((i : Int).tmod l.columns.parts) = .ok (l.columns.piece (l.column i)) := by
    rw [← Int.ofNat_tmod, Partition.range, if_pos, Int.toNat_natCast]
    · rfl
    · exact ⟨Int.natCast_nonneg _, by exact_mod_cast l.column_lt i⟩
  have inRows : l.rows.range ((i : Int).tdiv l.columns.parts) = .ok (l.rows.piece (l.row i)) := by
    rw [← Int.ofNat_tdiv, Partition.range, if_pos, Int.toNat_natCast]
    · rfl
    · exact ⟨Int.natCast_nonneg _, by exact_mod_cast row_lt inside⟩
  simp only [Mesh.load, read, settled, madeColumns, madeRows, inColumns, inRows, bind, Except.bind]
  simp only [Partition.piece_eq l.columns_nonneg, Partition.piece_eq l.rows_nonneg, Index.Piece.size, ← parts]
  rfl

end Layout

/-- Loading goes through, where each of its steps does. -/
theorem Mesh.load_of_steps [Scalar α] {source : GridSource α} {options : Options α} {g : GridShape α} {warnings : List String}
    {endpoint : Transport.Endpoint} {nxpe : Int} {xPart yPart : Partition} {xs ys : Index.Piece}
    {up down : Link} {defaults : Defaults} {more : List String}
    (read : GridShape.read source options = .ok (g, warnings)) (settled : g.settleSplit options endpoint.size = .ok nxpe)
    (columns : Partition.make nxpe g.mx = .ok xPart) (rows : Partition.make (endpoint.size.tdiv nxpe) g.ny = .ok yPart)
    (column : xPart.range (endpoint.rank.tmod nxpe) = .ok xs) (row : yPart.range (endpoint.rank.tdiv nxpe) = .ok ys)
    (upper : makeLink g.topology yPart nxpe (endpoint.rank.tmod nxpe) (endpoint.rank.tdiv nxpe) xs.start
      (Index.wrap (xs.size + 2 * g.mxg)) true = .ok up)
    (lower : makeLink g.topology yPart nxpe (endpoint.rank.tmod nxpe) (endpoint.rank.tdiv nxpe) xs.start
      (Index.wrap (xs.size + 2 * g.mxg)) false = .ok down)
    (chosen : Defaults.read options = .ok (defaults, more)) (fits : checkDefaultWidths g defaults = .ok ())
    (transform : transformName options = "identity") :
    Mesh.load source options endpoint = .ok (
      { shape := g, source, options, endpoint, nxpe, nype := endpoint.size.tdiv nxpe
        pex := endpoint.rank.tmod nxpe, pey := endpoint.rank.tdiv nxpe, xPart, yPart
        localNx := Index.wrap (xs.size + 2 * g.mxg)
        localNy := Index.wrap (ys.size + 2 * g.myg)
        localNz := g.nz
        xstart := g.mxg
        xend := Index.wrap (g.mxg + xs.size - 1)
        ystart := g.myg
        yend := Index.wrap (g.myg + ys.size - 1)
        offsetX := xs.start
        offsetY := ys.start - g.myg
        offsetZ := 0
        xin := if 0 < endpoint.rank.tmod nxpe ∨ g.periodicX
          then some (Mesh.rankAt nxpe ((endpoint.rank.tmod nxpe + nxpe - 1).tmod nxpe) (endpoint.rank.tdiv nxpe)) else none
        xout := if endpoint.rank.tmod nxpe < nxpe - 1 ∨ g.periodicX
          then some (Mesh.rankAt nxpe ((endpoint.rank.tmod nxpe + 1).tmod nxpe) (endpoint.rank.tdiv nxpe)) else none
        up, down, defaults }, warnings ++ more) := by
  have settledMethods : ((Defaults.read options).mapError Error.inOptions).mapError Failure.returned =
      .ok (defaults, more) := by
    rw [chosen]
    rfl
  have settledWidths : (checkDefaultWidths g defaults).mapError Failure.returned = .ok () := by
    rw [fits]
    rfl
  refine Outcome.bind_eq_ok.mpr ⟨_, read, Outcome.bind_eq_ok.mpr ⟨_, settled, ?_⟩⟩
  refine Outcome.bind_eq_ok.mpr ⟨_, columns, Outcome.bind_eq_ok.mpr ⟨_, rows, ?_⟩⟩
  refine Outcome.bind_eq_ok.mpr ⟨_, column, Outcome.bind_eq_ok.mpr ⟨_, row, ?_⟩⟩
  refine Outcome.bind_eq_ok.mpr ⟨_, upper, Outcome.bind_eq_ok.mpr ⟨_, lower, ?_⟩⟩
  refine Outcome.bind_eq_ok.mpr ⟨_, settledMethods, Outcome.bind_eq_ok.mpr ⟨_, settledWidths, ?_⟩⟩
  refine Outcome.guard_eq_ok.mpr ⟨?_, rfl⟩
  rw [transform]
  decide

end HaloMesh
