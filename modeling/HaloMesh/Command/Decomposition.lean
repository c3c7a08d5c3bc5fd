import HaloMesh.Mesh.Guards
import HaloMesh.Mesh.Load
import HaloMesh.Parameters.Basic

/-! The blocks that the ranks of a run hold, and the table that shows them. -/

namespace HaloMesh

open Text (padLeft)

variable {α : Type}

/-- The guard regions of a block with the ranks across them. -/
def Mesh.regionTexts (m : Mesh α) : List String :=
  m.guardRegions.map fun r => s!"{r.label}[{r.kind.name}]->{r.destination.getD (-1)}"

/-- One line of the table. -/
def tableLine (rank place block offset columns rows regions : String) : String :=
  " ".intercalate [padLeft 4 rank, padLeft 6 place, padLeft 9 block, padLeft 9 offset,
    padLeft 9 columns, padLeft 9 rows, regions] ++ "\n"

def Mesh.tableLine (m : Mesh α) : String :=
  HaloMesh.tableLine s!"{m.rank}" s!"{m.pex},{m.pey}" m.extents.text s!"{m.offsetX},{m.offsetY}"
    s!"{m.xstart}:{m.xend}" s!"{m.ystart}:{m.yend}" (" ".intercalate m.regionTexts)

/-- The blocks of all ranks; the first tells what all share. -/
def decompositionTable (meshes : List (Mesh α)) : String :=
  match meshes with
  | [] => ""
  | m :: _ =>
    s!"[{m.shape.topology.name}]\t= Topology\n" ++
      s!"[{m.nxpe} x {m.nype}]\t\t= NXPE x NYPE\n" ++
      tableLine "rank" "PE" "local" "offset" "x range" "y range" "guard regions" ++
      String.join (meshes.map Mesh.tableLine)

variable [Scalar α]

/-- The number of ranks of a run: the one asked for, or else that of the parameters. -/
def Parameters.rankCount (p : Parameters α) (asked : Int) : Int :=
  if asked < 1 then max p.nproc 1 else asked

/-- The storage that the report of a rank takes. -/
def reportSize : Int := 30

/-- The blocks of all ranks. There has to be storage for a report of each. An error is told for
the first rank that has one. -/
def decompose (source : GridSource α) (options : Options α) (nproc : Int) :
    Outcome (List (Mesh α)) :=
  if Index.storageLimit < reportSize * nproc then Outcome.outOfRange
  else
    Transport.onEveryRank nproc fun e =>
      ((Mesh.load source options e).map Prod.fst).mapError (Failure.onRank e.rank)

end HaloMesh
