import HaloMesh.Command.Line

/-! The program. -/

namespace HaloMesh

/-- The text of a file. -/
def readFile (path : String) : IO (Except FileFault String) := do
  try return .ok (← IO.FS.readFile path)
  catch
    | .inappropriateType .. => return .error .directory
    | .noSuchThing .. => return .error .missing
    | _ => return .error .missing

end HaloMesh

def main (args : List String) : IO UInt32 := do
  let home := (← IO.getEnv "HOME").getD ""
  let result ← HaloMesh.Command.run Float HaloMesh.readFile home args
  IO.print result.output
  return result.exit.toUInt32
