import HaloMesh.Mesh.Basic

/-! Splitting a grid over ranks. Every rank reads the same grid and options, settles the same
split and then works out its own block and neighbours, without asking the others. -/

namespace HaloMesh

open Index (Partition)
open Transport (Endpoint)

variable {α : Type} [Scalar α]

/-- A whole number from the grid, or else from the options. It is a word of 64 bits. -/
def gridWhole (source : GridSource α) (options : Options α) (name : String) (dflt : Int) :
    Except Error Int :=
  if source.hasVariable name then (source.scalar name).map fun x => Index.wrap (Scalar.round x)
  else .ok (Index.wrap (options.whole name dflt))

namespace GridShape

/-- The connections of rows that separatrix column and leg rows describe. Without legs the
options may decide whether the grid is periodic in y. -/
def readTopology (source : GridSource α) (options : Options α) (nx ny : Int) :
    Except Error Topology := do
  let ix ← gridWhole source options "ixseps1" nx
  let leg1 ← gridWhole source options "jyseps1_1" (-1)
  let leg2 ← gridWhole source options "jyseps2_2" (ny - 1)
  let noLegs := decide (leg1 < 0) && decide (ny - 1 ≤ leg2)
  if noLegs && options.isSet "periodicY" then
    return .rectangular ny (options.flag "periodicY" false)
  else if noLegs && decide (nx ≤ ix) then return .rectangular ny true
  else if noLegs && decide (ix ≤ 0) then return .rectangular ny false
  else Topology.makeSingleNull ny ix leg1 leg2

/-- The angles by which closed field lines turn, if the grid has them. There has to be storage
for one angle a column. -/
def readShiftAngle (source : GridSource α) (nx : Int) : Outcome (Option (Array α)) :=
  if Index.storageLimit < nx then Outcome.outOfRange
  else if source.hasVariable "ShiftAngle" then do
    let angles ← (source.profile "ShiftAngle").mapError .returned
    if (angles.size : Int) ≠ nx then
      Outcome.fail (.config (.shiftAngleLength angles.size nx))
    else return some angles
  else return none

/-- Everything about the grid that does not depend on the split, with warnings. -/
def read (source : GridSource α) (options : Options α) : Outcome (GridShape α × List String) := do
  let whole (name : String) (dflt : Int) : Outcome Int :=
    (gridWhole source options name dflt).mapError .returned
  let nx ← whole "nx" 0
  let ny ← whole "ny" 0
  let nz ← whole "nz" 1
  let mxg := Index.wrap (options.whole "MXG" 2)
  let myg := Index.wrap (options.whole "MYG" 2)
  if mxg < 0 ∨ myg < 0 then Outcome.fail (.config (.negativeGuards mxg myg))
  if nx ≤ Index.wrap (2 * mxg) ∨ ny < 1 ∨ nz < 1 then
    Outcome.fail (.config (.gridTooSmall nx ny nz mxg))
  let zMin := options.real "ZMIN" 0
  let zMax := options.real "ZMAX" 1
  if Scalar.le zMax zMin then
    Outcome.fail (.config (.emptyZRange (Scalar.text zMax) (Scalar.text zMin)))
  let topology ← (readTopology source options nx ny).mapError .returned
  let shiftAngle ← readShiftAngle source nx
  let twistShift := options.flag "TwistShift" false
  let warnings :=
    if twistShift && !source.hasVariable "ShiftAngle" then
      ["TwistShift is set but the grid has no ShiftAngle, using zero"]
    else []
  return (
    { nx, ny, nz, mxg, myg, zMin, zMax, topology, shiftAngle, twistShift
      periodicX := options.flag "periodicX" false
      staggerGrids := options.flag "StaggerGrids" false
      shiftXderivs := options.flag "ShiftXderivs" false
      incIntShear := options.flag "IncIntShear" false }, warnings)

/-- Whether the grid can be split `nxpe` ways in x: every block needs as many cells as
there are guard cells and at least one, and every branch cut has to start a block. The
last block is the smallest. -/
def checkSplit (g : GridShape α) (nproc nxpe : Int) : Outcome Unit := do
  let nype := nproc.tdiv nxpe
  let xPart ← Partition.make nxpe g.mx
  let yPart ← Partition.make nype g.ny
  let columns := xPart.lastPiece.size
  if columns < g.mxg ∨ columns < 1 then
    Outcome.fail (.config (.tooFewColumns nxpe columns g.mxg))
  let rows := yPart.lastPiece.size
  if rows < g.myg ∨ rows < 1 then Outcome.fail (.config (.tooFewRows nype rows g.myg))
  for cut in g.topology.cuts do
    let start := ((← yPart.owner cut).map fun k => (yPart.piece k).start).getD 0
    if start ≠ cut then Outcome.fail (.config (.cutInsideBlock cut nype))

/-- The split in x that makes the blocks most nearly square, the smaller one of two that
do equally well. -/
def chooseSplit (g : GridShape α) (nproc : Int) : Outcome Int := do
  let ideal : α :=
    Scalar.sqrt (Scalar.ofInt g.mx * Scalar.ofInt nproc / Scalar.ofInt g.ny)
  let mut best : Option (Int × α) := none
  let mut rejected : List Error := []
  for i in Index.span 1 nproc do
    if nproc.tmod i = 0 then
      match g.checkSplit nproc i with
      | .error (.returned e) => rejected := rejected ++ [e]
      | .error f => throw f
      | .ok _ =>
        let distance := Scalar.abs (Scalar.ofInt i - ideal)
        let better :=
          match best with
          | none => true
          | some (_, d) => Scalar.lt distance d
        if better then best := some (i, distance)
  match best, Error.join? rejected with
  | some (i, _), _ => return i
  | none, some e => Outcome.fail (.within (.noDecomposition nproc) e)
  | none, none => Outcome.outOfRange

/-- The split in x: the one the options ask for, if it divides the ranks, or the best. -/
def settleSplit (g : GridShape α) (options : Options α) (nproc : Int) : Outcome Int := do
  if options.isSet "NXPE" then
    let nxpe := Index.wrap (options.whole "NXPE" 0)
    if nxpe < 1 ∨ nproc.tmod nxpe ≠ 0 then
      Outcome.fail (.config (.notADivisor nxpe nproc))
    g.checkSplit nproc nxpe
    return nxpe
  else g.chooseSplit nproc

end GridShape

/-- The rank across one side of the split at an end of a block, and whether the step there
is a twist. The row across has to be at the facing end of its block. -/
def linkTarget (topology : Topology) (yPart : Partition) (nxpe pex edge : Int) (up inner : Bool) :
    Outcome (Option Int × Bool) := do
  let step := if up then topology.up edge inner else topology.down edge inner
  match step.row with
  | none => return (none, false)
  | some row =>
    let (py, piece) : Int × Index.Piece :=
      match ← yPart.owner row with
      | some k => ((k : Int), yPart.piece k)
      | none => (-1, ⟨0, 0⟩)
    if (if up then piece.start else piece.stop - 1) ≠ row then
      Outcome.fail (.config (.linkIntoBlock edge row))
    return (some (Mesh.rankAt nxpe pex py), step.twist)

/-- The link at the upper or lower end of a block of `localNx` columns. -/
def makeLink (topology : Topology) (yPart : Partition) (nxpe pex pey offsetX localNx : Int)
    (up : Bool) : Outcome Link := do
  let piece ← yPart.range pey
  let edge := if up then piece.stop - 1 else piece.start
  let split := max 0 (min (Index.wrap (topology.separatrix - offsetX)) localNx)
  let target (inner present : Bool) : Outcome (Option Int × Bool) :=
    if present then linkTarget topology yPart nxpe pex edge up inner else .ok (none, false)
  let (inner, innerTwist) ← target true (decide (0 < split))
  let (outer, outerTwist) ← target false (decide (split < localNx))
  return { inner, outer, innerTwist, outerTwist, split }

/-- The default methods along x and y must not reach beyond the guard cells. -/
def checkDefaultWidths (g : GridShape α) (defaults : Defaults) : Except Error Unit :=
  [Axis.x, Axis.y].forM fun axis =>
    [Kind.first, Kind.second, Kind.upwind, Kind.flux].forM fun kind => do
      let k : Kernel α ← defaults.resolve axis ⟨kind, false⟩ .standard
      let guards := if axis = .x then g.mxg else g.myg
      if guards < (k.width : Int) then
        throw (.config (.defaultTooWide axis kind k.method k.width guards))

/-- The parallel transform an option set names. -/
def transformName (options : Options α) : String :=
  Text.lower (options.text "paralleltransform" "identity")

namespace Mesh

/-- Builds the block of one rank, with the warnings on the way. Sizes and ends of the block are
words of 64 bits. -/
def load (source : GridSource α) (options : Options α) (endpoint : Endpoint) :
    Outcome (Mesh α × List String) := do
  let returned {β : Type} (r : Except Error β) : Outcome β := r.mapError .returned
  let (g, warnings) ← GridShape.read source options
  let nproc := endpoint.size
  let nxpe ← g.settleSplit options nproc
  let nype := nproc.tdiv nxpe
  let xPart ← Partition.make nxpe g.mx
  let yPart ← Partition.make nype g.ny
  let pex := endpoint.rank.tmod nxpe
  let pey := endpoint.rank.tdiv nxpe
  let xs ← xPart.range pex
  let ys ← yPart.range pey
  let localNx := Index.wrap (xs.size + 2 * g.mxg)
  let xin :=
    if 0 < pex ∨ g.periodicX then some (rankAt nxpe ((pex + nxpe - 1).tmod nxpe) pey) else none
  let xout :=
    if pex < nxpe - 1 ∨ g.periodicX then some (rankAt nxpe ((pex + 1).tmod nxpe) pey) else none
  let up ← makeLink g.topology yPart nxpe pex pey xs.start localNx true
  let down ← makeLink g.topology yPart nxpe pex pey xs.start localNx false
  let (defaults, moreWarnings) ← returned ((Defaults.read options).mapError .inOptions)
  returned (checkDefaultWidths g defaults)
  let transform := transformName options
  if transform ≠ "identity" ∧ transform ≠ "shifted" then
    Outcome.fail (.config (.unknownTransform transform))
  return (
    { shape := g, source, options, endpoint, nxpe, nype, pex, pey, xPart, yPart
      localNx
      localNy := Index.wrap (ys.size + 2 * g.myg)
      localNz := g.nz
      xstart := g.mxg
      xend := Index.wrap (g.mxg + xs.size - 1)
      ystart := g.myg
      yend := Index.wrap (g.myg + ys.size - 1)
      offsetX := xs.start
      offsetY := ys.start - g.myg
      offsetZ := 0
      xin, xout, up, down, defaults }, warnings ++ moreWarnings)

/-- A mesh on its way: made with all that it loads its block from, or loaded. -/
inductive Stage (α : Type) where
  | made (source : GridSource α) (options : Options α) (endpoint : Endpoint)
  | loaded (m : Mesh α)

/-- Makes a mesh, which has to have a transport. -/
def make (source : GridSource α) (options : Options α) : Option Endpoint → Outcome (Stage α)
  | some endpoint => .ok (.made source options endpoint)
  | none => Outcome.fail (.config .noTransport)

/-- A mesh is loaded once. -/
def Stage.load : Stage α → Outcome (Mesh α × List String)
  | .made source options endpoint => Mesh.load source options endpoint
  | .loaded _ => Outcome.fail (.config .alreadyLoaded)

end Mesh

end HaloMesh
