import HaloMesh.Text.Number
import HaloMesh.Yaml.Cursor

/-! Names that data refer to each other by, tags that tell what a value is, and the directives
in front of a document. -/

namespace HaloMesh.Yaml

def nameExpected : String := "did not find expected alphabetic or numeric character"

/-- The name behind the sign of an anchor or alias. -/
def readName (c : Cursor) : Read String :=
  let (name, after) := c.skip.takeWhile isNameChar
  let ends :=
    endsWord after.rest ||
      after.rest.head?.any fun ch => ch ∈ ['?', ':', ',', ']', '\x7d', '%', '@', '\x60']
  if name.isEmpty || !ends then after.fault nameExpected c.mark
  else .ok (String.ofList name, after)

/-- How many bytes a character takes that starts with a given one, none if no character
does. -/
def byteWidth? (n : Nat) : Option Nat :=
  if n < 0x80 then some 1
  else if n / 0x20 = 6 then some 2
  else if n / 0x10 = 14 then some 3
  else if n / 0x08 = 30 then some 4
  else none

/-- A byte written as a percent sign and two digits. -/
def readByte (start : Mark) (c : Cursor) : Read Nat :=
  let c := c.see 3
  let digits := (c.rest.drop 1).take 2
  match Text.digitsValue? 16 digits with
  | some n =>
    if c.at? '%' && digits.length = 2 then .ok (n, c.skips 3)
    else c.fault "did not find URI escaped octet" start
  | none => c.fault "did not find URI escaped octet" start

/-- The further bytes of a character. -/
def readTrailing (start : Mark) : (count : Nat) → Cursor → (value : Nat) → Read Nat
  | 0, c, value => .ok (value, c)
  | count + 1, c, value =>
    match readByte start c with
    | .error f => .error f
    | .ok (n, after) =>
      if n / 0x40 = 2 then readTrailing start count after (value * 0x40 + n % 0x40)
      else c.fault "found an incorrect trailing UTF-8 octet" start

/-- A character written byte by byte. -/
def readEncoded (start : Mark) (c : Cursor) : Read Char :=
  match readByte start c with
  | .error f => .error f
  | .ok (n, after) =>
    match byteWidth? n with
    | none => c.fault "found an incorrect leading UTF-8 octet" start
    | some 1 => .ok (Char.ofNat n, after)
    | some width =>
      (readTrailing start (width - 1) after (n % Nat.pow 2 (7 - width))).map fun (value, c) =>
        (Char.ofNat value, c)

/-- The signs besides those of names that a tag may hold. -/
def tagSigns : List Char :=
  [';', '/', '?', ':', '@', '&', '=', '+', '$', ',', '.', '!', '~', '*', '\'', '(', ')', '[', ']']

/-- The characters of a tag, `taken` being read in reverse. -/
def tagChars (start : Mark) : (steps : Nat) → Cursor → (taken : List Char) → Read (List Char)
  | 0, c, taken => .ok (taken, c)
  | steps + 1, c, taken =>
    let c := c.see 1
    match c.rest with
    | [] => .ok (taken, c)
    | ch :: _ =>
      if ch = '%' then
        match readEncoded start c with
        | .error f => .error f
        | .ok (e, c) => tagChars start steps c (e :: taken)
      else if isNameChar ch || ch ∈ tagSigns then tagChars start steps c.skip (ch :: taken)
      else .ok (taken, c)

/-- A tag behind what was already read of it. A tag that starts here must not be empty. -/
def readTagBody (start : Mark) (started : Option (List Char)) (c : Cursor) : Read String :=
  match tagChars start (c.left + 1) c (started.getD []).reverse with
  | .error f => .error f
  | .ok (taken, after) =>
    if started.isNone && after.mark = c.mark then after.fault "did not find expected tag URI" start
    else .ok (String.ofList taken.reverse, after)

/-- The part of a tag that stands for its beginning: an exclamation mark, or a name between
two. In a directive it has to be one. -/
def readHandle (directive : Bool) (start : Mark) (c : Cursor) : Read (List Char) :=
  let missing : String := "did not find expected '!'"
  let c := c.see 1
  if !c.at? '!' then c.fault missing start
  else
    let (name, after) := c.skip.takeWhile isNameChar
    if after.at? '!' then .ok ('!' :: name ++ ['!'], after.skip)
    else if directive && !name.isEmpty then after.fault missing start
    else .ok ('!' :: name, after)

/-- A tag as it is written: the part that stands for its beginning, and the rest. -/
structure Tag where
  handle : String
  suffix : String
deriving DecidableEq, Repr

/-- A tag with its exclamation mark: a whole one between angles, one with a handle, or a
lone mark. -/
def readTagParts (c : Cursor) : Read Tag :=
  let start := c.mark
  let c := c.see 2
  if c.skip.at? '<' then
    match readTagBody start none c.skip.skip with
    | .error f => .error f
    | .ok (body, c) =>
      if c.at? '>' then .ok (⟨"", body⟩, c.skip)
      else c.fault "did not find the expected '>'" start
  else
    match readHandle false start c with
    | .error f => .error f
    | .ok (handle, c) =>
      if 1 < handle.length && handle.getLast? == some '!' then
        (readTagBody start none c).map fun (body, c) => (⟨String.ofList handle, body⟩, c)
      else
        (readTagBody start (some (handle.drop 1)) c).map fun (body, c) =>
          (if body = "" then ⟨"", "!"⟩ else ⟨"!", body⟩, c)

/-- A tag, which a blank has to follow. -/
def readTag (c : Cursor) : Read Tag :=
  match readTagParts c with
  | .error f => .error f
  | .ok (tag, after) =>
    let after := after.see 1
    if endsWord after.rest then .ok (tag, after)
    else after.fault "did not find expected whitespace or line break" c.mark

/-- What may stand in front of a document. -/
inductive Directive where
  | version (major minor : Nat)
  | tag (handle stem : String)
deriving DecidableEq, Repr

/-- One or two digits of a version. -/
def readVersionPart (start : Mark) (c : Cursor) : Read Nat :=
  let (digits, after) := c.takeWhile Text.isDigit
  if digits.isEmpty then after.fault "did not find expected version number" start
  else if 2 < digits.length then c.fault "found extremely long version number" start
  else .ok ((Text.digitsValue? 10 digits).getD 0, after)

def readVersion (start : Mark) (c : Cursor) : Read Directive :=
  match readVersionPart start (c.skipWhile isBlank) with
  | .error f => .error f
  | .ok (major, c) =>
    if !c.at? '.' then c.fault "did not find expected digit or '.' character" start
    else (readVersionPart start c.skip).map fun (minor, c) => (.version major minor, c)

def readTagDirective (start : Mark) (c : Cursor) : Read Directive :=
  match readHandle true start (c.skipWhile isBlank) with
  | .error f => .error f
  | .ok (handle, c) =>
    let c := c.see 1
    if !c.rest.head?.any isBlank then c.fault "did not find expected whitespace" start
    else
      match readTagBody start none (c.skipWhile isBlank) with
      | .error f => .error f
      | .ok (stem, c) =>
        if endsWord c.rest then .ok (.tag (String.ofList handle) stem, c)
        else c.fault "did not find expected whitespace or line break" start

/-- A directive with its percent sign, up to the end of its line. -/
def readDirective (c : Cursor) : Read Directive :=
  let start := c.mark
  let (name, c) := c.skip.takeWhile isNameChar
  if name.isEmpty then c.fault "could not find expected directive name" start
  else if !endsWord c.rest then c.fault "found unexpected non-alphabetical character" start
  else
    let body : Read Directive :=
      match String.ofList name with
      | "YAML" => readVersion start c
      | "TAG" => readTagDirective start c
      | _ => c.fault "found unknown directive name" start
    match body with
    | .error f => .error f
    | .ok (directive, c) =>
      let c := c.skipComment
      if endsLine c.rest then .ok (directive, c.skipLine)
      else c.fault "did not find expected comment or line break" start

end HaloMesh.Yaml
