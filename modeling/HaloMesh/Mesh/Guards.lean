import HaloMesh.Mesh.Basic

/-! The guard cells of a block by region, and the columns whose ends in y are physical
boundaries. -/

namespace HaloMesh.Mesh

open Index (Segment Walk)

variable {α : Type}

/-- A region is a seam where there is a rank across it. Its ends are words. -/
def guardRegion (label : String) (side : RegionSide) (destination : Option Int)
    (xs xe ys ye outX outY : Int) : Region :=
  Region.restart
    { label, side, destination, outX, outY
      xs := Index.wrap xs
      xe := Index.wrap xe
      ys := Index.wrap ys
      ye := Index.wrap ye
      kind := if destination.isSome then .seam else .boundary }

/-- The guard regions that hold a cell. Together they cover every guard cell once: the x
guards beside the interior rows, and the y guards over all columns, divided at the splits
of the links. -/
def guardRegions (m : Mesh α) : List Region :=
  [ guardRegion "xin" .xin m.xin 0 (m.xstart - 1) m.ystart m.yend (-1) 0,
    guardRegion "xout" .xout m.xout (m.xend + 1) (m.localNx - 1) m.ystart m.yend 1 0,
    guardRegion "lower_inner" .ydown m.down.inner 0 (m.down.split - 1) 0 (m.ystart - 1) 0 (-1),
    guardRegion "lower_outer" .ydown m.down.outer m.down.split (m.localNx - 1) 0 (m.ystart - 1)
      0 (-1),
    guardRegion "upper_inner" .yup m.up.inner 0 (m.up.split - 1) (m.yend + 1) (m.localNy - 1)
      0 1,
    guardRegion "upper_outer" .yup m.up.outer m.up.split (m.localNx - 1) (m.yend + 1)
      (m.localNy - 1) 0 1 ].filter fun r => !r.isEmpty

/-- The regions of the physical boundary. -/
def boundaryRegions (m : Mesh α) : List Region := m.guardRegions.filter Region.isBoundary

/-- Whether a link has a column without a rank across it. -/
def hasBoundary (m : Mesh α) (l : Link) : Bool :=
  (l.inner.isNone && decide (0 < l.split)) || (l.outer.isNone && decide (l.split < m.localNx))

/-- The columns from `lo` up to but not including `hi`, if they end at a boundary. -/
def boundarySegment (destination : Option Int) (lo hi : Int) : Segment :=
  if destination.isSome then ⟨0, -1⟩ else ⟨lo, Index.previous hi⟩

def innerBoundary (l : Link) : Segment := boundarySegment l.inner 0 l.split

def outerBoundary (m : Mesh α) (l : Link) : Segment := boundarySegment l.outer l.split m.localNx

/-- The columns that end at a boundary: all of them, those inside and those outside the
split. -/
def boundaryWalk (m : Mesh α) (l : Link) : Walk := Walk.through [innerBoundary l, m.outerBoundary l]

def innerBoundaryWalk (l : Link) : Walk := Walk.through [innerBoundary l]

def outerBoundaryWalk (m : Mesh α) (l : Link) : Walk := Walk.through [m.outerBoundary l]

end HaloMesh.Mesh
