import HaloMesh.Json.Decode
import HaloMesh.Parameters.Basic
import HaloMesh.Yaml.Exchange

/-! Reading a parameters file. -/

namespace HaloMesh.Parameters

open Json (Place Taken Fields)
open Yaml (Shape)

variable {α : Type} [Scalar α]

/-- The place of a field in messages. -/
def place (name : String) : Place := { record := "MeshParameters", steps := [.entry name] }

/-- A field by its name in the file: how a value is taken over. -/
def fieldOf {β : Type} (name : String) (get : Parameters α → β)
    (set : Parameters α → β → Parameters α) (take : Place → β → Json → Taken β) :
    String × (Parameters α → Json → Taken (Parameters α)) :=
  (name, fun p j =>
    let (b, e) := take (place name) (get p) j
    (set p b, e))

def takeMethods (place : Place) (old : List (String × String)) (j : Json) :
    Taken (List (String × String)) :=
  j.takeTable (fun place j => j.takeText place "") "map[string]string" place old

def fields : Fields (Parameters α) :=
  [ fieldOf "Title" title (fun p b => { p with title := b }) Json.takeText,
    fieldOf "GridFile" gridFile (fun p b => { p with gridFile := b }) Json.takeText,
    fieldOf "NProc" nproc (fun p b => { p with nproc := b }) Json.takeWhole,
    fieldOf "nx" nx (fun p b => { p with nx := b }) Json.takeWhole,
    fieldOf "ny" ny (fun p b => { p with ny := b }) Json.takeWhole,
    fieldOf "nz" nz (fun p b => { p with nz := b }) Json.takeWhole,
    fieldOf "MXG" mxg (fun p b => { p with mxg := b }) Json.takeWhole,
    fieldOf "MYG" myg (fun p b => { p with myg := b }) Json.takeWhole,
    fieldOf "NXPE" nxpe (fun p b => { p with nxpe := b }) Json.takeWhole,
    fieldOf "periodicX" periodicX (fun p b => { p with periodicX := b }) Json.takeFlag,
    fieldOf "periodicY" periodicY (fun p b => { p with periodicY := b }) Json.takeOptionalFlag,
    fieldOf "StaggerGrids" staggerGrids (fun p b => { p with staggerGrids := b }) Json.takeFlag,
    fieldOf "ShiftXderivs" shiftXderivs (fun p b => { p with shiftXderivs := b }) Json.takeFlag,
    fieldOf "IncIntShear" incIntShear (fun p b => { p with incIntShear := b }) Json.takeFlag,
    fieldOf "TwistShift" twistShift (fun p b => { p with twistShift := b }) Json.takeFlag,
    fieldOf "ParallelTransform" parallelTransform (fun p b => { p with parallelTransform := b })
      Json.takeText,
    fieldOf "ZMIN" zMin (fun p b => { p with zMin := b }) Json.takeReal,
    fieldOf "ZMAX" zMax (fun p b => { p with zMax := b }) Json.takeReal,
    fieldOf "ddx" ddx (fun p b => { p with ddx := b }) takeMethods,
    fieldOf "ddy" ddy (fun p b => { p with ddy := b }) takeMethods,
    fieldOf "ddz" ddz (fun p b => { p with ddz := b }) takeMethods ]

/-- The fields that hold text, by themselves or in tables. -/
def shape : Shape :=
  .record [("Title", .text), ("GridFile", .text), ("ParallelTransform", .text),
    ("ddx", .table .text), ("ddy", .table .text), ("ddz", .table .text)]

/-- A file that mentions whether y is periodic decides about it, even by a value that does not
fit. -/
def decided (p : Parameters α) (v : Yaml.Value) : Parameters α :=
  match v with
  | .table entries =>
    let mentioned := entries.any fun e =>
      (e.1.keyText?).any fun key => Text.sameName key "periodicY"
    if mentioned && p.periodicY.isNone then { p with periodicY := some false } else p
  | _ => p

/-- Reads a file into parameters. Fields it does not mention keep their value, and so do
those set before an error. -/
def load (p : Parameters α) (text : String) : Parameters α × Option Error :=
  let fault (detail : String) : Error := .malformed s!"error converting YAML to JSON: {detail}"
  match Yaml.read text with
  | .error detail => (p, some (fault detail))
  | .ok v =>
    let p := p.decided v
    match Yaml.exchange v shape with
    | .error detail => (p, some (fault detail))
    | .ok j =>
      let misread (detail : String) : Error := .malformed s!"error unmarshaling JSON: {detail}"
      match j.depthFault? with
      | some detail => (p, some (misread detail))
      | none =>
        let (p, e) := j.takeRecord fields "InputParameters.MeshParameters"
          { record := "MeshParameters" } p
        (p, e.map fun m => misread m.message)

end HaloMesh.Parameters
