import HaloMesh.Config.Hcl.Object
import HaloMesh.Config.Tree

/-! The settings that entries give. A key that comes again keeps to the kind of value it has: a
plain value takes another of its kind, and lists and blocks add to what was there. Entries
whose first keys are the same but for case belong together where one of them has more keys
than one. -/

namespace HaloMesh.Config.Hcl

variable {α : Type} [Scalar α]

/-- The shape of a value that is right inside. -/
inductive Outline where
  | plain (t : Token)
  /-- A list, which may hold nothing but blocks. -/
  | list (blocks : Bool)
  | block

/-- What a key has been given so far. -/
inductive Held (α : Type) where
  | plain (s : Setting α)
  | list
  | blocks

namespace Held

/-- Lists and blocks stand for no plain value. -/
def toSetting : Held α → Setting α
  | plain s => s
  | _ => .other

end Held

/-- The text of a word in quotes. -/
def textOf : Option String → Except Refusal String
  | some s => .ok s
  | none => .error .fatal

/-- The text of a key. -/
def Token.name : Token → Except Refusal String
  | .word s => .ok s
  | .text s => textOf s
  | _ => .error .malformed

def wholeOf (digits : List Char) : Except Refusal (Setting α) :=
  match Text.whole digits with
  | .ok n => .ok (.whole n)
  | .error _ => .error .malformed

/-- The value of digits as a fraction. -/
def realOf (digits : List Char) : Except Refusal (Setting α) :=
  match Text.number? (String.ofList digits) with
  | some n => .ok (.real (Setting.ofNumber n))
  | none => .error .malformed

/-- A plain value where a key has one already keeps to the kind of that one. -/
def plainSetting (old : Option (Setting α)) (t : Token) : Except Refusal (Setting α) :=
  match old, t with
  | none, .whole ds => wholeOf ds
  | none, .real ds => realOf ds
  | none, .flag b => .ok (.flag b)
  | none, .text s => (textOf s).map .text
  | none, .lines s => .ok (.text s)
  | some (.whole _), .whole ds => wholeOf ds
  | some (.whole _), .text s => (textOf s).bind fun s => wholeOf s.toList
  | some (.real _), .whole ds => realOf ds
  | some (.real _), .real ds => realOf ds
  | some (.flag _), .flag b => .ok (.flag b)
  | some (.text _), .whole ds => .ok (.text (String.ofList ds))
  | some (.text _), .text s => (textOf s).map .text
  | some (.text _), .lines s => .ok (.text s)
  | _, _ => .error .malformed

/-- What a key holds with a new value. -/
def Outline.heldWith (old : Option (Held α)) : Outline → Except Refusal (Held α)
  | .plain t =>
    match old with
    | none => (plainSetting none t).map .plain
    | some (.plain s) => (plainSetting (some s) t).map .plain
    | some _ => .error .malformed
  | .list blocks =>
    match old with
    | none => .ok .list
    | some .list => .ok .list
    | some .blocks => if blocks then .ok .blocks else .error .malformed
    | some (.plain _) => .error .malformed
  | .block =>
    match old with
    | none => .ok .blocks
    | some .list => .ok .list
    | some .blocks => .ok .blocks
    | some (.plain _) => .error .malformed

/-- An entry by its keys and the shape of its value, if that is right inside. -/
abbrev Sketch := List Token × Except Refusal Outline

/-- Whether an entry is right behind its first key: there is another key, and the value is
right on its own. -/
def checkMember (α : Type) [Scalar α] (keys : List Token) (outline : Except Refusal Outline) :
    Except Refusal Unit := do
  if keys.isEmpty then throw .malformed
  let _ ← keys.mapM Token.name
  let _ ← (← outline).heldWith (none : Option (Held α))

/-- Looks at the entries whose first key has a name. -/
def checkGroup (α : Type) [Scalar α] (name : String) (all : List Sketch) :
    Except Refusal Unit := do
  let firsts ← all.mapM fun (keys, _) => (keys.headD .stray).name
  (firsts.zip all).forM fun (first, keys, outline) =>
    if Text.sameName first name then checkMember α (keys.drop 1) outline else pure ()

/-- What the keys of a file or block hold. -/
def heldBy (all : List Sketch) : Except Refusal (List (String × Held α)) :=
  all.foldlM (fun known (keys, outline) =>
    match keys with
    | [] => throw .malformed
    | [key] => do
      let name ← key.name
      let held ← (← outline).heldWith (Named.find? known name)
      return Named.assign name held known
    | key :: _ => do
      let name ← key.name
      checkGroup α name all
      return Named.assign name .blocks known) []

mutual

/-- The shape of a value. -/
def outline (α : Type) [Scalar α] : Body → Except Refusal Outline
  | .plain t => .ok (.plain t)
  | .list items => do
    let outlines ← itemOutlines α items
    return .list (outlines.all fun o => o matches .block)
  | .block entries => do
    let _ ← heldBy (α := α) (sketches α entries)
    return .block

/-- The shapes of the items of a list, each right on its own. -/
def itemOutlines (α : Type) [Scalar α] : List Body → Except Refusal (List Outline)
  | [] => .ok []
  | b :: rest => do
    let o ← outline α b
    let _ ← o.heldWith (none : Option (Held α))
    return o :: (← itemOutlines α rest)

def sketches (α : Type) [Scalar α] : List (List Token × Body) → List Sketch
  | [] => []
  | (keys, b) :: rest => (keys, outline α b) :: sketches α rest

end

/-- The settings of a text. -/
def read (text : String) : Except Refusal (Entries α) := do
  let entries? := if Object.startsHere text then Object.entriesOf? text else entriesOf? text
  match entries? with
  | none => .error .malformed
  | some entries =>
    let held ← heldBy (α := α) (sketches α entries)
    return held.map fun (name, h) => (name, h.toSetting)

end HaloMesh.Config.Hcl
