import HaloMesh.Command.Flags
import HaloMesh.Command.Verification
import HaloMesh.Config.Format
import HaloMesh.Grid.Reader
import HaloMesh.Parameters.Reader

/-! The commands. Everything a run shows is one text, and files are read through a function
that is given; so a run is the same on a real directory and on a table of texts. -/

namespace HaloMesh.Command

variable {α : Type} [Scalar α]

/-- What a run leaves behind. -/
structure Result where
  output : String
  exit : Nat
deriving DecidableEq, Repr

/-- A path in its shortest form: without empty steps and single dots, and two dots take the
step before them away. -/
def shortest (path : String) : String :=
  let rooted := path.startsWith "/"
  let names := (path.splitOn "/").foldl (fun (taken : List String) name =>
    if name = "" || name = "." then taken
    else if name ≠ ".." then name :: taken
    else
      match taken with
      | [] => if rooted then [] else [name]
      | last :: rest => if last = ".." then name :: taken else rest) []
  let way := "/".intercalate names.reverse
  if rooted then "/" ++ way else if way = "" then "." else way

/-- A path with the home directory for a leading tilde. Other paths stay as they are. -/
def expandHome (home path : String) : Except Error String :=
  match path.toList with
  | '~' :: rest =>
    if rest.head?.all fun c => c = '/' || c = '\\' then
      .ok (shortest (home ++ "/" ++ String.ofList rest))
    else .error .foreignHome
  | _ => .ok path

section Files

variable {m : Type → Type} [Monad m]

/-- The text of a file. -/
def readText (read : String → m (Except FileFault String)) (home path : String) :
    m (Except Error (String × String)) := do
  match expandHome home path with
  | .error e => return .error e
  | .ok path =>
    match ← read path with
    | .ok text => return .ok (path, text)
    | .error fault => return .error (.unreadable path fault)

/-- Reads a parameters file. -/
def readParameters (read : String → m (Except FileFault String)) (home path : String) :
    m (Except Error (Parameters α)) := do
  match ← readText read home path with
  | .error e => return .error e
  | .ok (path, text) =>
    match (Parameters.unset : Parameters α).load text with
    | (p, none) => return .ok p
    | (_, some e) => return .error (.within (.reading path) e)

/-- The grid of a run: the file the parameters name, or a uniform grid of their size. Sizes
in the parameters go before those of the file. -/
def readGrid (read : String → m (Except FileFault String)) (home : String) (p : Parameters α) :
    m (Except Error (GridSource α)) := do
  if p.gridFile = "" then
    if p.nx = 0 ∨ p.ny = 0 then return .error .noGridSize
    else return .ok (p.overGrid GridSource.empty)
  else
    match ← readText read home p.gridFile with
    | .error e => return .error e
    | .ok (_, text) => return (GridSource.parse text).map p.overGrid

/-- What a command works on: parameters, grid and number of ranks. A positive number of ranks
goes before that of the file. -/
def prepare (read : String → m (Except FileFault String)) (home path : String) (nproc : Int) :
    m (Except Error (Parameters α × GridSource α × Int)) := do
  match ← readParameters read home path with
  | .error e => return .error e
  | .ok (p : Parameters α) =>
    let p := if 0 < nproc then { p with nproc } else p
    return (← readGrid read home p).map fun source => (p, source, p.rankCount nproc)

end Files

/-- Whether a log level is one of the four, with an offset or without. -/
def isLogLevel (s : String) : Bool :=
  let cs := (Text.upper s).toList
  let name := cs.takeWhile fun c => c ≠ '+' && c ≠ '-'
  let offset := cs.drop name.length
  String.ofList name ∈ ["DEBUG", "INFO", "WARN", "ERROR"] &&
    (offset.isEmpty || (Text.wholeIn 10 offset).isOk)

/-- What is shown to a user who names no file. -/
def exampleFile : String :=
  "\n########################################\nTitle: \"Slab\"\nNProc: 4\n" ++
    "nx: 20 # Includes 2*MXG boundary cells\nny: 16\nnz: 8\nperiodicX: false\nddz:\n" ++
    "  first: FFT\n########################################\n"

inductive Task where
  | decomp | verify
deriving DecidableEq, Repr

namespace Task

def all : List Task := [decomp, verify]

def name : Task → String
  | decomp => "decomp"
  | verify => "verify"

def named? (s : String) : Option Task := all.find? fun task => task.name = s

end Task

/-- A run that failed after showing something. A misuse ends it without a word. -/
def failed (shown : String) : Failure → Result
  | .returned e => ⟨shown ++ s!"error: {e.message}\n", 1⟩
  | _ => ⟨shown, 2⟩

/-- Runs a task on parameters, grid and options. -/
def Task.run (task : Task) (shown : String) (p : Parameters α) (source : GridSource α)
    (options : Options α) (nproc : Int) : Result :=
  match task with
  | decomp =>
    match decompose source options nproc with
    | .error f => failed shown f
    | .ok meshes => ⟨shown ++ p.summary ++ decompositionTable meshes, 0⟩
  | verify =>
    match verifyRanks source options nproc with
    | .error f => failed shown f
    | .ok reports =>
      ⟨shown ++ verificationTable reports, if reports.any Verification.isBad then 1 else 0⟩

variable {m : Type → Type} [Monad m]

/-- The first of some paths that leads to a file or a directory. -/
def firstPresent? (read : String → m (Except FileFault String)) :
    List String → m (Option String)
  | [] => return none
  | path :: rest => do
    match ← read path with
    | .ok _ => return some path
    | .error .directory => return some path
    | .error _ => firstPresent? read rest

/-- The configuration of a run and its announcement, none if the run ends there. A file that
is not named is looked for at home, and one that cannot be used counts as none. -/
def readConfig (read : String → m (Except FileFault String)) (home : String) (r : Request) :
    m (Option (Options α × String)) := do
  let path? ← if r.config = "" then firstPresent? read (Config.defaultPaths home)
    else pure (some r.config)
  match path? with
  | none => return some (Options.empty, "")
  | some path =>
    match Config.formatOf? path, (← read path).toOption with
    | some format, some text =>
      match format.read text with
      | .ok entries => return some (Config.toOptions entries, s!"Using config file: {path}\n")
      | .error .malformed => return some (Options.empty, "")
      | .error .fatal => return none
    | _, _ => return some (Options.empty, "")

/-- Runs a task as the flags ask. -/
def perform (α : Type) [Scalar α] (read : String → m (Except FileFault String)) (home : String)
    (task : Task) (r : Request) : m Result := do
  let some (configured, shown) ← readConfig (α := α) read home r | return ⟨"", 2⟩
  let shown :=
    if isLogLevel r.log then shown
    else shown ++ s!"error: log level {Text.quoted r.log}, using warn\n"
  if r.inputFile = "" then
    return ⟨shown ++ "error: must supply a mesh parameters file (-I, --inputFile)\n" ++
      s!"Example File:{exampleFile}\n", 1⟩
  match ← prepare (α := α) read home r.inputFile r.nproc with
  | .error e => return failed shown (.returned e)
  | .ok (p, source, nproc) => return task.run shown p source (p.options configured) nproc

/-- What is said about a name that is no command. -/
def unknownCommand (name : String) : String :=
  let near := Task.all.filter fun task => resembles name task.name
  s!"unknown command {Text.quoted name} for \"plasmamesh\"" ++
    (if near.isEmpty then ""
      else "\n\nDid you mean this?\n" ++ String.join (near.map fun task => s!"\t{task.name}\n")) ++
    "\n"

/-- Runs a command line. -/
def run (α : Type) [Scalar α] (read : String → m (Except FileFault String)) (home : String)
    (args : List String) : m Result := do
  let flags (known : List Flag) (args : List String) : Except String Request :=
    readFlags known (args.length + 1) args {}
  match command? args with
  | none =>
    match flags Flag.shared args with
    | .error message => return ⟨message ++ "\n", 1⟩
    | .ok _ => return ⟨"", 0⟩
  | some name =>
    match Task.named? name with
    | none => return if name = "help" then ⟨"", 0⟩ else ⟨unknownCommand name, 1⟩
    | some task =>
      match flags Flag.all (args.erase name) with
      | .error message => return ⟨message ++ "\n", 1⟩
      | .ok r => if r.help then return ⟨"", 0⟩ else perform α read home task r

end HaloMesh.Command
