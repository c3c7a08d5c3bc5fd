import HaloMesh.Mesh.Exchange

/-! Field lines across blocks: the ranks a line passes through, and averages along it. -/

namespace HaloMesh.Mesh

open Transport

variable {α : Type}

/-- The ranks of the own row of the processor grid. -/
def xRanks (m : Mesh α) : List Int := (Index.span 0 (m.nxpe - 1)).map fun px => m.procRank px m.pey

/-- Visits the rows met on the way from `start` by repeated steps, one after the other, up to a
boundary or back to the start. -/
def visitRows {β : Type} (visit : Int → Outcome β) (next : Int → Option Int) (start : Int) :
    (steps : Nat) → Int → Outcome (List β)
  | 0, _ => return []
  | steps + 1, j =>
    match next j with
    | none => return []
    | some k =>
      if k < 0 ∨ k = start then return []
      else do
        let met ← visit k
        return met :: (← visitRows visit next start steps k)

/-- Ascending order without repeats. -/
def ascending (xs : List Int) : List Int := (xs.mergeSort fun a b => decide (a ≤ b)).eraseDups

/-- The row of the processor grid that holds a row of the grid. -/
def rowOwner (m : Mesh α) (j : Int) : Outcome Int := do
  match ← m.yPart.owner j with
  | some k => return k
  | none => return -1

/-- The ranks the field line through a local column and the first own row passes, in ascending
order. -/
def yRanks (m : Mesh α) (x : Int) : Outcome (List Int) := do
  let inner := decide (m.globalX x < m.shape.topology.separatrix)
  let start := m.globalY m.ystart
  let steps := m.shape.ny.toNat
  let here ← m.rowOwner start
  let above ← visitRows m.rowOwner (fun j => (m.shape.topology.up j inner).row) start steps start
  let below ← visitRows m.rowOwner (fun j => (m.shape.topology.down j inner).row) start steps start
  return (ascending (here :: (above ++ below))).map fun py => m.procRank m.pex py

def xCommunicator (m : Mesh α) : Except Error Communicator :=
  Communicator.make m.endpoint m.xRanks

/-- The group of ranks that hold the field line through a local column. -/
def yCommunicator (m : Mesh α) (x : Int) : Outcome Communicator := do
  (Communicator.make m.endpoint (← m.yRanks x)).mapError .returned

/-- Columns whose field lines pass the same ranks. -/
structure ColumnGroup where
  communicator : Communicator
  columns : List Int

/-- Adds a column to the group of its ranks. -/
def addColumn (c : Communicator) (x : Int) : List ColumnGroup → List ColumnGroup
  | [] => [⟨c, [x]⟩]
  | g :: rest =>
    if g.communicator.ranks = c.ranks then { g with columns := g.columns ++ [x] } :: rest
    else g :: addColumn c x rest

/-- The columns of the block grouped by the ranks of their field lines. All ranks of a line
go through their groups in one order, that of the written rank lists. -/
def columnGroups (m : Mesh α) : Outcome (List ColumnGroup) := do
  let groups ← (Index.span 0 (m.localNx - 1)).foldlM (fun groups x => do
    return addColumn (← m.yCommunicator x) x groups) []
  let key (g : ColumnGroup) : String := Text.bracketed (g.communicator.ranks.map toString)
  return groups.mergeSort fun a b => decide (key a ≤ key b)

variable [Scalar α]

/-- The tag of the sums along field lines. -/
def averageTag : Int := 6

/-- The sums of a field over the interior rows of some columns, for each z, and then the
number of rows. -/
def columnSums (m : Mesh α) (f : Field α) (columns : List Int) : Outcome (Array α) := do
  let sums ← columns.mapM fun x => (List.range f.nz).mapM fun (z : Nat) =>
    (Index.span m.ystart m.yend).foldlM (fun s y => do return s + (← f.get x y z)) (0 : α)
  return (sums.flatten ++ [Scalar.ofInt (m.yend - m.ystart + 1)]).toArray

/-- Spreads the means over the rows of some columns. -/
def spreadMeans (f : Field α) (columns : List Int) (sums : Array α) (data : Array α) :
    Outcome (Array α) :=
  let count := (sums[sums.size - 1]?).getD 0
  let points := columns.zipIdx.flatMap fun (x, i) =>
    (List.range f.ny).flatMap fun y => (List.range f.nz).map fun z => (x, i, y, z)
  points.foldlM (fun data (x, i, y, z) =>
    Field.writeAt data (f.index x y z) ((sums[i * f.nz + z]?).getD 0 / count)) data

end HaloMesh.Mesh
