import HaloMesh.Config.Tree
import HaloMesh.Text.Search

/-! Files of keys and values in sections. A setting is named by its section and its key with a
dot between them; keys before the first section stand in a section of their own. A minus is
the next number as a key. A key between a percent sign with brackets and an `s` stands for
its value. -/

namespace HaloMesh.Config.Ini

structure Section where
  name : String
  keys : List (String × List Char)

/-- The section of the keys before any other. -/
def defaultName : String := "DEFAULT"

abbrev File := List Section

namespace File

def find? (f : File) (name : String) : Option Section := List.find? (fun s => s.name = name) f

/-- Gives a key of a section its value. -/
def put (f : File) (name key : String) (value : List Char) : File :=
  f.map fun s => if s.name = name then { s with keys := Named.assign key value s.keys } else s

/-- Adds a section unless it is there. -/
def withSection (f : File) (name : String) : File :=
  if (f.find? name).isSome then f else f ++ [⟨name, []⟩]

end File

def trimmed (cs : List Char) : List Char := (Text.trimBlanks (String.ofList cs)).toList

/-- The lines of a text with their ends. -/
def linesOf (text : List Char) : List (List Char) :=
  let lines := ((String.ofList text).splitOn "\n").map String.toList
  lines.dropLast.map (fun l => l ++ ['\n']) ++ [lines.getLastD []]

def isDivider (c : Char) : Bool := c = '=' || c = ':'

/-- The quotes a key or value can start with. -/
def keyQuote (cs : List Char) : List Char :=
  if cs.head? = some '"' then
    if 6 < (String.ofList cs).utf8ByteSize && cs.take 3 = ['"', '"', '"'] then
      ['"', '"', '"']
    else ['"']
  else if cs.head? = some '\x60' then ['\x60']
  else []

/-- The key of a line and what is left behind the divider. -/
def splitKey? (cs : List Char) : Option (List Char × List Char) := do
  let quote := keyQuote cs
  let (key, rest) ←
    if quote.isEmpty then some (cs.takeWhile fun c => !isDivider c, cs)
    else Text.cut? quote (cs.drop quote.length)
  match rest.dropWhile fun c => !isDivider c with
  | _ :: rest => some (trimmed key, rest)
  | [] => none

/-- Goes on with the next lines as long as one ends in a backslash; an empty one ends it. -/
def continued (taken : List Char) : List (List Char) → List Char × List (List Char)
  | [] => (taken, [])
  | line :: rest =>
    let next := trimmed line
    if next.isEmpty then (taken, rest)
    else if next.getLast? = some '\\' then continued (taken ++ next.dropLast) rest
    else (taken ++ next, rest)

/-- Goes on up to a closing quote, none if it is missing. -/
def quotedLines? (quote taken : List Char) :
    List (List Char) → Option (List Char × List (List Char))
  | [] => none
  | line :: rest =>
    match Text.cutLast? quote line with
    | some (front, _) => some (taken ++ front, rest)
    | none => if rest.isEmpty then none else quotedLines? quote (taken ++ line) rest

/-- Whether a text stands in quotes and holds no other. -/
def isQuoted (quote : Char) (cs : List Char) : Bool :=
  2 ≤ cs.length && cs.head? = some quote && cs.getLast? = some quote &&
    !((cs.drop 1).dropLast).contains quote

/-- The value that starts here, and the lines left. -/
def readValue? (cs : List Char) (lines : List (List Char)) :
    Option (List Char × List (List Char)) :=
  let cs := cs.dropWhile Text.isBlank
  let quote : List Char :=
    if 3 < cs.length && cs.take 3 = ['"', '"', '"'] then ['"', '"', '"']
    else if cs.head? = some '\x60' then ['\x60']
    else []
  if cs.isEmpty then some ([], lines)
  else if !quote.isEmpty then
    let inner := cs.drop quote.length
    match Text.cutLast? quote inner with
    | some (value, _) => some (value, lines)
    | none => quotedLines? quote inner lines
  else
    let cs := trimmed cs
    if cs.getLast? = some '\\' then some (continued cs.dropLast lines)
    else
      let isComment (c : Char) : Bool := c = '#' || c = ';'
      let cs :=
        if cs.any isComment then trimmed (cs.takeWhile fun c => !isComment c) else cs
      some (if isQuoted '\'' cs || isQuoted '"' cs then (cs.drop 1).dropLast else cs, lines)

/-- Reads line after line; `count` numbers the keys of the section that are just a minus. -/
def readLines : (steps : Nat) → (current : String) → (count : Nat) → File → List (List Char) →
    Option File
  | 0, _, _, _, _ => none
  | _, _, _, f, [] => some f
  | steps + 1, current, count, f, line :: lines =>
    match line.dropWhile Text.isBlank with
    | [] => readLines steps current count f lines
    | '[' :: rest => do
      let (name, _) ← Text.cutLast? [']'] rest
      if name.isEmpty then none
      readLines steps (String.ofList name) 1 (f.withSection (String.ofList name)) lines
    | c :: rest =>
      if c = '#' || c = ';' then readLines steps current count f lines
      else do
        let (key, rest) ← splitKey? (c :: rest)
        let (value, lines) ← readValue? rest lines
        if key.isEmpty then none
        if key = ['-'] then
          readLines steps current (count + 1) (f.put current s!"#{count}" value) lines
        else readLines steps current count (f.put current (String.ofList key) value) lines

/-- The names of a section and of those around it, the innermost first. -/
def outwards : (steps : Nat) → List String → List String
  | 0, _ => []
  | steps + 1, names =>
    if names.isEmpty then []
    else ".".intercalate names :: outwards steps names.dropLast

/-- The section that answers for a key, and its value. Sections around a section answer for
it; one without a name is that of the keys before any other. -/
def lookUp? (f : File) (name key : String) : Option (String × List Char) :=
  let names := name.splitOn "."
  (outwards names.length names).findSome? fun name =>
    let name := if name = "" then defaultName else name
    (f.find? name).bind fun s => (Named.find? s.keys key).map fun v => (name, v)

/-- The first key between brackets: what stands before it, the key and the rest. -/
def reference? : List Char → Option (List Char × List Char × List Char)
  | [] => none
  | c :: cs =>
    let here : Option (List Char × List Char) := do
      let rest ← Text.after? ['%', '('] (c :: cs)
      let name := rest.takeWhile (· ≠ ')')
      if name.isEmpty then none
      return (name, ← Text.after? [')', 's'] (rest.drop name.length))
    match here with
    | some (name, rest) => some ([], name, rest)
    | none => (reference? cs).map fun (front, name, rest) => (c :: front, name, rest)

/-- Puts values for keys between brackets, at most `rounds` of them. A key that stands for
itself is looked up among the keys before any section. -/
def substituted (f : File) (name key : String) : (rounds : Nat) → List Char → List Char
  | 0, cs => cs
  | rounds + 1, cs =>
    match reference? cs with
    | none => cs
    | some (_, inner, _) =>
      let wanted := String.ofList inner
      let found := (lookUp? f name wanted).bind fun (owner, v) =>
        if owner = name && wanted = key then none else some v
      match found.or ((lookUp? f defaultName wanted).map Prod.snd) with
      | none => cs
      | some v =>
        let mark := ['%', '('] ++ inner ++ [')', 's']
        substituted f name key rounds (Text.replaceAll mark v cs.length cs)

/-- The settings of a text, none if it is malformed. -/
def read? {α : Type} (text : String) : Option (Entries α) := do
  let cs := (Text.after? [Char.ofNat 0xfeff] text.toList).getD text.toList
  let lines := linesOf cs
  let f ← readLines (lines.length + 1) defaultName 1 [⟨defaultName, []⟩] lines
  return f.flatMap fun s => s.keys.map fun (key, value) =>
    (s.name ++ "." ++ key, .text (String.ofList (substituted f s.name key 99 value)))

end HaloMesh.Config.Ini
