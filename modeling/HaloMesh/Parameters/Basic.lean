import HaloMesh.Grid.Source
import HaloMesh.Options

/-! The parameters of a run, as a parameters file gives them. Those that are set become mesh
options; they lie over the settings of a configuration file. -/

namespace HaloMesh

structure Parameters (α : Type) where
  title : String
  gridFile : String
  nproc : Int
  nx : Int
  ny : Int
  nz : Int
  mxg : Int
  myg : Int
  nxpe : Int
  periodicX : Bool
  /-- Without it the grid decides. -/
  periodicY : Option Bool
  staggerGrids : Bool
  shiftXderivs : Bool
  incIntShear : Bool
  twistShift : Bool
  parallelTransform : String
  zMin : α
  zMax : α
  /-- Methods by the kind of derivative, along x, y and z. -/
  ddx : List (String × String)
  ddy : List (String × String)
  ddz : List (String × String)

namespace Parameters

variable {α : Type} [Scalar α]

/-- Nothing set. -/
def unset : Parameters α :=
  { title := "", gridFile := "", nproc := 0, nx := 0, ny := 0, nz := 0, mxg := 0, myg := 0
    nxpe := 0, periodicX := false, periodicY := none, staggerGrids := false
    shiftXderivs := false, incIntShear := false, twistShift := false, parallelTransform := ""
    zMin := 0, zMax := 0, ddx := [], ddy := [], ddz := [] }

/-- Methods in the order of their keys. -/
def sortedMethods (methods : List (String × String)) : List (String × String) :=
  methods.mergeSort fun a b => decide (a.1 ≤ b.1)

/-- The methods of each axis under the section they are set in. -/
def sections (p : Parameters α) : List (String × List (String × String)) :=
  [("ddx", sortedMethods p.ddx), ("ddy", sortedMethods p.ddy), ("ddz", sortedMethods p.ddz)]

/-- The parameters as settings. A number that is zero is not set; a switch always is. -/
def settings (p : Parameters α) : List (String × Setting α) :=
  let number (key : String) (n : Int) : List (String × Setting α) :=
    if n = 0 then [] else [(key, .whole n)]
  number "nx" p.nx ++ number "ny" p.ny ++ number "nz" p.nz ++ number "MXG" p.mxg ++
    number "MYG" p.myg ++ number "NXPE" p.nxpe ++ [("periodicX", .flag p.periodicX)] ++
    (p.periodicY.toList.map fun b => ("periodicY", .flag b)) ++
    [("StaggerGrids", .flag p.staggerGrids), ("ShiftXderivs", .flag p.shiftXderivs),
      ("IncIntShear", .flag p.incIntShear), ("TwistShift", .flag p.twistShift)] ++
    (if p.parallelTransform = "" then []
      else [("paralleltransform", .text p.parallelTransform)]) ++
    (if Scalar.same p.zMax p.zMin then [] else [("ZMIN", .real p.zMin), ("ZMAX", .real p.zMax)]) ++
    p.sections.flatMap fun (name, methods) => methods.map fun (kind, method) =>
      (name ++ "." ++ Text.lower kind, .text method)

/-- The mesh options of a run: the parameters over the settings of a configuration. -/
def options (p : Parameters α) (configured : Options α) : Options α :=
  p.settings.foldl (fun o (key, value) => o.set key value) configured

/-- The summary shown before a run's result. -/
def summary (p : Parameters α) : String :=
  s!"\"{p.title}\"\t\t= Title\n" ++
    s!"[{p.nx} x {p.ny} x {p.nz}]\t\t= Grid Size\n" ++
    s!"[{p.nproc}]\t\t\t\t= Processors\n" ++
    (if p.gridFile = "" then "" else s!"[{p.gridFile}]\t= Grid File\n") ++
    (if p.parallelTransform = "" then ""
      else s!"[{p.parallelTransform}]\t\t= Parallel Transform\n") ++
    String.join (p.sections.flatMap fun (name, methods) => methods.map fun (kind, method) =>
      s!"{name}[{kind}] = {method}\n")

/-- Sizes in the parameters go before those of the grid. -/
def overGrid (p : Parameters α) (source : GridSource α) : GridSource α :=
  [("nx", p.nx), ("ny", p.ny), ("nz", p.nz)].foldl (fun s (name, n) =>
    if n = 0 then s else s.setScalar name (Scalar.ofInt n)) source

end Parameters

end HaloMesh
