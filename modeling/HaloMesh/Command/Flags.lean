import HaloMesh.Text.Case
import HaloMesh.Text.Number
import HaloMesh.Text.Quoted

/-! Flags of a command line. A long flag follows two dashes and a short one a single dash; the
value follows an equals sign or is the next argument, and may follow a short flag at once.
Flags and plain arguments may be mixed. -/

namespace HaloMesh.Command

/-- The flags of the program. -/
inductive Flag where
  | config | profile | log | inputFile | nproc | help
deriving DecidableEq, Repr

namespace Flag

def all : List Flag := [config, profile, log, inputFile, nproc, help]

/-- The flags that need no command. -/
def shared : List Flag := [config, profile, log, help]

def name : Flag → String
  | config => "config"
  | profile => "profile"
  | log => "log"
  | inputFile => "inputFile"
  | nproc => "nproc"
  | help => "help"

def short? : Flag → Option Char
  | inputFile => some 'I'
  | nproc => some 'n'
  | help => some 'h'
  | _ => none

/-- A switch is on without a value. -/
def isSwitch : Flag → Bool
  | profile => true
  | help => true
  | _ => false

/-- A flag as it is shown in messages. -/
def label (f : Flag) : String :=
  match f.short? with
  | some c => s!"-{c}, --{f.name}"
  | none => s!"--{f.name}"

end Flag

/-- What a command line asks for. -/
structure Request where
  config : String := ""
  log : String := "warn"
  inputFile : String := ""
  nproc : Int := 0
  help : Bool := false
deriving DecidableEq, Repr

/-- What is said of a text that is no number. -/
def numberFault (s : String) (fault : Text.NumberFault) : String :=
  let reason :=
    match fault with
    | .malformed => "invalid syntax"
    | .outOfRange => "value out of range"
  s!"strconv.ParseInt: parsing {Text.quoted s}: {reason}"

/-- The truth value a switch is given. -/
def switchValue? (s : String) : Option Bool :=
  if s ∈ ["1", "t", "T", "TRUE", "true", "True"] then some true
  else if s ∈ ["0", "f", "F", "FALSE", "false", "False"] then some false
  else none

def invalidArgument (f : Flag) (value fault : String) : String :=
  s!"invalid argument {Text.quoted value} for {Text.quoted f.label} flag: {fault}"

def Request.setSwitch (r : Request) (f : Flag) (value : String) : Except String Request :=
  match switchValue? value with
  | some b => .ok (if f = .help then { r with help := b } else r)
  | none =>
    .error (invalidArgument f value
      s!"strconv.ParseBool: parsing {Text.quoted value}: invalid syntax")

/-- Gives a flag its value. -/
def Request.set (r : Request) (f : Flag) (value : String) : Except String Request :=
  match f with
  | .config => .ok { r with config := value }
  | .log => .ok { r with log := value }
  | .inputFile => .ok { r with inputFile := value }
  | .nproc =>
    match Text.whole value.toList with
    | .ok n => .ok { r with nproc := n }
    | .error fault => .error (invalidArgument f value (numberFault value fault))
  | _ => r.setSwitch f value

/-- The name and the value of a long flag. -/
def splitEquals (cs : List Char) : String × Option String :=
  let name := cs.takeWhile (· ≠ '=')
  match cs.drop name.length with
  | _ :: value => (String.ofList name, some (String.ofList value))
  | [] => (String.ofList name, none)

/-- The first byte of a character, as a character of its own. -/
def leadingByte (c : Char) : Char :=
  Char.ofNat ((String.singleton c).toUTF8.toList.headD 0).toNat

/-- Whether a run of short flags is meant for a test program, which is passed over. -/
def isTestFlag (cs : List Char) : Bool := cs.take 5 = "test.".toList

/-- Reads a run of short flags; the rest of the arguments serves for a value. -/
def readShort (known : List Flag) : List Char → (args : List String) → Request →
    Except String (Request × List String)
  | [], args, r => .ok (r, args)
  | c :: cs, args, r =>
    let seen := String.ofList (c :: cs)
    let shown := Text.quotedChar (leadingByte c)
    match known.find? fun f => f.short? = some c with
    | none =>
      if isTestFlag (c :: cs) then .ok (r, args)
      else .error s!"unknown shorthand flag: {shown} in -{seen}"
    | some f =>
      match f.isSwitch, cs, args with
      | _, '=' :: value@(_ :: _), _ => (r.set f (String.ofList value)).map fun r => (r, args)
      | true, _, _ => (r.set f "true").bind fun r => readShort known cs args r
      | false, _ :: _, _ => (r.set f (String.ofList cs)).map fun r => (r, args)
      | false, [], value :: args => (r.set f value).map fun r => (r, args)
      | false, [], [] => .error s!"flag needs an argument: {shown} in -{seen}"

/-- Reads a long flag. -/
def readLong (known : List Flag) (cs : List Char) (args : List String) (r : Request) :
    Except String (Request × List String) :=
  let (name, value) := splitEquals cs
  if name = "" || name.startsWith "-" then .error s!"bad flag syntax: --{String.ofList cs}"
  else
    match known.find? fun f => f.name = name with
    | none => .error s!"unknown flag: --{name}"
    | some f =>
      match value, f.isSwitch, args with
      | some value, _, _ => (r.set f value).map fun r => (r, args)
      | none, true, _ => (r.set f "true").map fun r => (r, args)
      | none, false, value :: args => (r.set f value).map fun r => (r, args)
      | none, false, [] => .error s!"flag needs an argument: --{name}"

/-- Reads all flags; plain arguments are passed over. -/
def readFlags (known : List Flag) : (steps : Nat) → List String → Request → Except String Request
  | 0, _, r => .ok r
  | _ + 1, [], r => .ok r
  | steps + 1, arg :: args, r =>
    match arg.toList with
    | ['-', '-'] => .ok r
    | '-' :: '-' :: cs => do
      let (r, args) ← readLong known cs args r
      readFlags known steps args r
    | '-' :: c :: cs => do
      let (r, args) ← readShort known (c :: cs) args r
      readFlags known steps args r
    | _ => readFlags known steps args r

/-- Whether an argument before the command takes the next one with it, as a flag without an
equals sign does. Of the switches only the one for profiling is known at this point. -/
def takesNext (arg : String) : Bool :=
  !arg.contains '=' &&
    if arg.startsWith "--" then arg ≠ "--" ++ Flag.profile.name
    else arg.startsWith "-" && arg.utf8ByteSize = 2

/-- The command among the arguments. A flag at the end leaves nothing to look for. -/
def command? : List String → Option String
  | [] => none
  | arg :: args =>
    if arg = "--" then none
    else if takesNext arg then
      match args with
      | _ :: next :: rest => command? (next :: rest)
      | _ => none
    else if arg = "" || arg.startsWith "-" then command? args
    else some arg

/-- Whether one list becomes the other by at most `k` insertions, deletions and
replacements. -/
def withinEdits {β : Type} [DecidableEq β] : (k : Nat) → List β → List β → Bool
  | k, [], t => t.length ≤ k
  | k, s, [] => s.length ≤ k
  | k, a :: s, b :: t =>
    if a = b then withinEdits k s t
    else
      match k with
      | 0 => false
      | k + 1 => withinEdits k s (b :: t) || withinEdits k (a :: s) t || withinEdits k s t
termination_by _ s t => s.length + t.length

/-- Whether a name may have been meant by what was typed: two edits away, or its start. -/
def resembles (typed name : String) : Bool :=
  let typed := Text.lower typed
  withinEdits 2 typed.toUTF8.toList name.toUTF8.toList || name.startsWith typed

end HaloMesh.Command
