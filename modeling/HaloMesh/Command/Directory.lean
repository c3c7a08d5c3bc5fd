import HaloMesh.Error
import HaloMesh.Named

/-! A working directory as a table of texts. Paths lead through it as through a real one:
directories are the beginnings of file names, two dots lead out of them, and a file has
nothing inside. -/

namespace HaloMesh.Command

structure Directory where
  /-- Where the directory stands. -/
  home : String
  /-- The texts by their paths in the directory. -/
  files : List (String × String)

namespace Directory

/-- Where a path leads to. -/
inductive Spot where
  | file (text : String)
  /-- A directory by the names that lead to it. -/
  | inside (names : List String)
  /-- A directory further out. -/
  | outside
deriving DecidableEq, Repr

/-- Whether some file lies below a directory. -/
def hasBelow (d : Directory) (names : List String) : Bool :=
  d.files.any fun f => (f.1.splitOn "/").take names.length = names

/-- One step of a path. -/
def enter (d : Directory) (spot : Spot) (name : String) : Except FileFault Spot :=
  match spot with
  | .file _ => .error .notDirectory
  | .outside => if name = "." || name = ".." || name = "" then .ok .outside else .error .missing
  | .inside names =>
    if name = "." || name = "" then .ok (.inside names)
    else if name = ".." then .ok (if names.isEmpty then .outside else .inside names.dropLast)
    else
      let names := names ++ [name]
      match Named.find? d.files ("/".intercalate names) with
      | some text => .ok (.file text)
      | none => if d.hasBelow names then .ok (.inside names) else .error .missing

/-- The longest name a file can have. -/
def nameLimit : Nat := 255

/-- The length that a path has to stay below. -/
def pathLimit : Nat := 4096

/-- Where the steps of a path start, and the steps. -/
def start (d : Directory) (path : String) : Spot × List String :=
  if path = d.home then (.inside [], [])
  else if path.startsWith (d.home ++ "/") then
    (.inside [], ((path.drop (d.home.length + 1)).toString).splitOn "/")
  else if path.startsWith "/" then (.outside, path.splitOn "/")
  else (.inside [], path.splitOn "/")

/-- The text of the file that a path leads to. -/
def read (d : Directory) (path : String) : Except FileFault String := do
  if path = "" then throw .missing
  if path.toList.any fun c => c.toNat = 0 then throw .badName
  if pathLimit ≤ path.utf8ByteSize then throw .longName
  let (spot, names) := d.start path
  if names.any fun name => nameLimit < name.utf8ByteSize then throw .longName
  match ← names.foldlM d.enter spot with
  | .file text => return text
  | _ => throw .directory

end Directory

end HaloMesh.Command
