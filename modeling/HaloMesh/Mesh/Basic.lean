import HaloMesh.Difference.Defaults
import HaloMesh.Field.Basic
import HaloMesh.Grid.Source
import HaloMesh.Index.Partition
import HaloMesh.Index.Segments
import HaloMesh.Region
import HaloMesh.Topology
import HaloMesh.Transport.Request

/-! The part of a global grid that one rank owns. The global grid has boundary columns at both
ends in x and interior rows only in y. A rank holds a block of interior cells surrounded by
guard cells; z is not split. -/

namespace HaloMesh

open Index (Partition)

/-- The sizes and switches that grid and options fix before the grid is split. -/
structure GridShape (α : Type) where
  nx : Int
  ny : Int
  nz : Int
  mxg : Int
  myg : Int
  periodicX : Bool
  staggerGrids : Bool
  shiftXderivs : Bool
  incIntShear : Bool
  twistShift : Bool
  zMin : α
  zMax : α
  topology : Topology
  /-- The angles by which closed field lines turn, one a column; without them all are zero. -/
  shiftAngle : Option (Array α)

namespace GridShape

variable {α : Type}

/-- The interior columns of the global grid. -/
def mx (g : GridShape α) : Int := Index.wrap (g.nx - 2 * g.mxg)

/-- The angle of a global column, which has to exist. -/
def angleAt [Scalar α] (g : GridShape α) (xg : Int) : Outcome α :=
  match g.shiftAngle with
  | some angles => elementAt angles xg
  | none => if 0 ≤ xg ∧ xg < g.nx then .ok 0 else Outcome.outOfRange

end GridShape

/-- A rank's share of the grid: its place among the ranks, its cells, and whom it touches. -/
structure Mesh (α : Type) where
  shape : GridShape α
  source : GridSource α
  options : Options α
  endpoint : Transport.Endpoint
  nxpe : Int
  nype : Int
  pex : Int
  pey : Int
  xPart : Partition
  yPart : Partition
  localNx : Int
  localNy : Int
  localNz : Int
  xstart : Int
  xend : Int
  ystart : Int
  yend : Int
  offsetX : Int
  offsetY : Int
  offsetZ : Int
  xin : Option Int
  xout : Option Int
  up : Link
  down : Link
  defaults : Defaults

namespace Mesh

variable {α : Type}

def rank (m : Mesh α) : Int := m.endpoint.rank

def extents (m : Mesh α) : Extents := ⟨m.localNx, m.localNy, m.localNz⟩

def isFirstX (m : Mesh α) : Bool := decide (m.pex = 0)

def isLastX (m : Mesh α) : Bool := decide (m.pex = m.nxpe - 1)

def isFirstY (m : Mesh α) : Bool := decide (m.pey = 0)

def isLastY (m : Mesh α) : Bool := decide (m.pey = m.nype - 1)

/-- The rank at a place of the processor grid. -/
def rankAt (nxpe px py : Int) : Int := py * nxpe + px

def procRank (m : Mesh α) (px py : Int) : Int := Index.wrap (rankAt m.nxpe px py)

def globalX (m : Mesh α) (x : Int) : Int := Index.wrap (x + m.offsetX)

def globalY (m : Mesh α) (y : Int) : Int := Index.wrap (y + m.offsetY)

/-- The local column of a global one, which may lie outside the block. -/
def localX (m : Mesh α) (xg : Int) : Int := Index.wrap (xg - m.offsetX)

def localY (m : Mesh α) (yg : Int) : Int := Index.wrap (yg - m.offsetY)

def isInterior (m : Mesh α) (x y : Int) : Bool :=
  decide (m.xstart ≤ x) && decide (x ≤ m.xend) && decide (m.ystart ≤ y) && decide (y ≤ m.yend)

/-- The values of a field in the interior of the block. -/
def interiorValues (m : Mesh α) (f : Field α) : Outcome (List α) :=
  ((Index.span m.xstart m.xend).flatMap fun x =>
    (Index.span m.ystart m.yend).flatMap fun y =>
      (Index.span 0 (f.nz - 1)).map fun z => (x, y, z)).mapM fun (x, y, z) => f.get x y z

/-- Whether the lower guard cells of a column are a physical boundary. -/
def isFirstYAt (m : Mesh α) (x : Int) : Bool := (m.down.destination x).isNone

/-- Whether the upper guard cells of a column are a physical boundary. -/
def isLastYAt (m : Mesh α) (x : Int) : Bool := (m.up.destination x).isNone

/-- The number of points along an axis. -/
def axisSize (m : Mesh α) : Axis → Int
  | .x => m.localNx
  | .y => m.localNy
  | .z => m.localNz

/-- The guard cells along an axis. Along z every point has as many neighbours as the line
is long, for the line is periodic. -/
def guards (m : Mesh α) : Axis → Int
  | .x => m.shape.mxg
  | .y => m.shape.myg
  | .z => m.localNz

/-- The number of rows on the field line through a local column. -/
def lineLength (m : Mesh α) (x : Int) : Int :=
  m.shape.topology.lineLength (m.globalX x) (m.globalY m.ystart)

/-- The rank on a side of the block. -/
def neighbour? (m : Mesh α) : Side → Option Int
  | .xOut => m.xout
  | .xIn => m.xin
  | .yOutInner => m.up.inner
  | .yOutOuter => m.up.outer
  | .yInInner => m.down.inner
  | .yInOuter => m.down.outer

variable [Scalar α]

/-- The length of the periodic z domain. -/
def zLength (m : Mesh α) : α := 2 * Scalar.pi * (m.shape.zMax - m.shape.zMin)

/-- Whether the field line of a column closes in y, and the angle it is turned by there. -/
def periodicY (m : Mesh α) (x : Int) : Outcome (Bool × α) := do
  let xg := m.globalX x
  let periodic := m.shape.topology.isPeriodic xg (m.globalY m.ystart)
  if periodic && m.shape.twistShift then
    return (true, ← m.shape.angleAt xg)
  return (periodic, 0)

/-- The normalised x position, from 0 to 1 across the interior. -/
def positionX (m : Mesh α) (x : α) : α :=
  (0.5 + x + Scalar.ofInt (m.offsetX - m.shape.mxg)) / Scalar.ofInt m.shape.mx

def positionY (m : Mesh α) (y : α) : α :=
  (0.5 + y + Scalar.ofInt m.offsetY) / Scalar.ofInt m.shape.ny

/-- A field of zeros over the block. -/
def zeroField (m : Mesh α) (place : Placement) : Outcome (Field α) :=
  Field.zero m.localNx m.localNy m.localNz place

/-- A field of a function of the normalised x and y positions and the z angle. -/
def functionField (m : Mesh α) (place : Placement) (g : α → α → α → α) : Outcome (Field α) :=
  let dz := m.zLength / Scalar.ofInt m.localNz
  Field.ofFunction m.localNx m.localNy m.localNz place fun x y z =>
    g (m.positionX (Scalar.ofInt x)) (m.positionY (Scalar.ofInt y)) (Scalar.ofInt z * dz)

end Mesh

end HaloMesh
