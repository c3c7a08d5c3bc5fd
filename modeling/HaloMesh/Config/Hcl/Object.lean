import HaloMesh.Config.Hcl.Body
import HaloMesh.Text.Case

/-! Files of settings written as an object: keys in quotes, a colon and a value. Only what is
needed is read: behind a value anything but a comma ends its object, and what follows the
outermost object does not matter. -/

namespace HaloMesh.Config.Hcl.Object

/-- The words that are values. -/
def valueWords : List (String × Token) :=
  [("true", .flag true), ("false", .flag false), ("null", .null)]

/-- The meaning of single signs. -/
def signs : List (Char × Token) :=
  [('[', .openBracket), (']', .closeBracket), ('\x7b', .openBrace), ('\x7d', .closeBrace),
    (',', .comma), (':', .colon), ('.', .stray), ('\x00', .finish)]

/-- Up to the closing quote; `taken` is read in reverse. -/
def readQuoted : (steps : Nat) → (taken : List Char) → List Char →
    Option (List Char × List Char)
  | 0, _, _ => none
  | _, _, [] => none
  | steps + 1, taken, c :: rest =>
    if c = '"' then some (taken.reverse, rest)
    else if c = '\n' || c = '\x00' then none
    else if c = '\\' then
      match escape? rest with
      | some (_, width) =>
        readQuoted steps ((rest.take width).reverse ++ c :: taken) (rest.drop width)
      | none => none
    else readQuoted steps (c :: taken) rest

/-- A whole number that starts with a zero has no other digit and does not end the text. -/
def readNumber (sign cs : List Char) : Option (Token × List Char) :=
  let (t, rest) := readDecimal sign cs
  if rest.head? = some '\x00' then none
  else
    match t with
    | .whole written =>
      let zero := cs.head? = some '0'
      if zero && (rest.isEmpty || sign.length + 1 < written.length) then none else some (t, rest)
    | _ => some (t, rest)

/-- The next word. The text ends in a word of its own. -/
def scan? (cs : List Char) : Option (Token × List Char) :=
  match cs.dropWhile isBlank with
  | [] => some (.finish, [])
  | c :: rest =>
    let digitNext := rest.head?.any Text.isDigit
    if startsWord c then
      let inWord (c : Char) : Bool := isNameChar c || c = '-'
      let left := rest.dropWhile inWord
      if left.head? = some '\x00' then none
      else (valueWords.find? fun (w, _) => w.toList = c :: rest.takeWhile inWord).map
        fun (_, t) => (t, left)
    else if Text.isDigit c then readNumber [] (c :: rest)
    else if c = '-' && digitNext then readNumber ['-'] rest
    else if c = '.' && digitNext then some (readFraction rest)
    else if c = '"' then
      (readQuoted (rest.length + 1) [] rest).map fun (raw, rest) => (quotedToken true raw, rest)
    else (signs.find? fun (sign, _) => sign = c).map fun (_, t) => (t, rest)

/-- What was read, or where an object ends because something is missing. -/
inductive Found (β : Type) where
  | read (x : β) (rest : List Char)
  | missing (rest : List Char)
  | broken

mutual

/-- A value that starts here. -/
def value : (fuel : Nat) → List Char → Found Body
  | 0, _ => .broken
  | fuel + 1, cs =>
    match scan? cs with
    | some (.openBrace, rest) =>
      match fields fuel [] rest with
      | some (es, rest) => .read (.block es) rest
      | none => .broken
    | some (.openBracket, rest) => items fuel [] rest
    | some (.finish, rest) => .missing rest
    | some (.closeBrace, rest) => .missing rest
    | some (.null, rest) => .read (.plain (.text (some ""))) rest
    | some (t, rest) => if t.isPlain then .read (.plain t) rest else .broken
    | none => .broken

/-- The items of a list; `taken` is read in reverse. Commas, truth values and brackets in it do
not count. -/
def items : (fuel : Nat) → (taken : List Body) → List Char → Found Body
  | 0, _, _ => .broken
  | fuel + 1, taken, cs =>
    match scan? cs with
    | some (.openBrace, rest) =>
      match fields fuel [] rest with
      | some (es, rest) => items fuel (.block es :: taken) rest
      | none => .broken
    | some (.closeBracket, rest) => .read (.list taken.reverse) rest
    | some (.closeBrace, rest) => .missing rest
    | some (.comma, rest) => items fuel taken rest
    | some (.flag _, rest) => items fuel taken rest
    | some (.openBracket, rest) => items fuel taken rest
    | some (t, rest) => if t.isPlain then items fuel (.plain t :: taken) rest else .broken
    | none => .broken

/-- The fields of an object, its brace being read; `taken` is read in reverse. -/
def fields : (fuel : Nat) → (taken : List Entry) → List Char →
    Option (List Entry × List Char)
  | 0, _, _ => none
  | fuel + 1, taken, cs =>
    match field fuel [] cs with
    | .read e rest =>
      match scan? rest with
      | some (.comma, rest) => fields fuel (e :: taken) rest
      | some (_, rest) => some ((e :: taken).reverse, rest)
      | none => none
    | .missing rest => some (taken.reverse, rest)
    | .broken => none

/-- The keys of a field and its value. -/
def field : (fuel : Nat) → (keys : List Token) → List Char → Found Entry
  | 0, _, _ => .broken
  | fuel + 1, keys, cs =>
    match scan? cs with
    | some (.text s, rest) => field fuel (keys ++ [.text s]) rest
    | some (.colon, rest) =>
      if keys.isEmpty then .broken
      else
        match value fuel rest with
        | .read b rest => .read (keys, b) rest
        | .missing rest => .missing rest
        | .broken => .broken
    | some (.finish, rest) => .missing rest
    | some (.closeBrace, rest) => .missing rest
    | _ => .broken

end

mutual

/-- An entry in the form of blocks. An object that holds objects only gives its keys to each
of them, and so does a list of objects. -/
def spread (keys : List Token) : Body → List Entry
  | .plain t => [(keys, .plain t)]
  | .list bodies =>
    if !bodies.isEmpty && bodies.all Body.isBlock then spreadItems keys bodies
    else [(keys, .list (settledItems bodies))]
  | .block es =>
    if !es.isEmpty && es.all fun e => e.2.isBlock then spreadEntries keys es
    else [(keys, .block (spreadEntries [] es))]

def spreadItems (keys : List Token) : List Body → List Entry
  | [] => []
  | b :: rest => spread keys b ++ spreadItems keys rest

def spreadEntries (keys : List Token) : List (List Token × Body) → List Entry
  | [] => []
  | (more, b) :: rest => spread (keys ++ more) b ++ spreadEntries keys rest

/-- The items of a list that stays one. -/
def settledItems : List Body → List Body
  | [] => []
  | b :: rest => settledItem b :: settledItems rest

def settledItem : Body → Body
  | .plain t => .plain t
  | .list bodies => .list (settledItems bodies)
  | .block es => .block (spreadEntries [] es)

end

/-- Whether a text is written as an object. -/
def startsHere (text : String) : Bool :=
  (text.toList.dropWhile Text.isBlank).head? = some '\x7b'

/-- The entries of a text, none if it is malformed. -/
def entriesOf? (text : String) : Option (List Entry) :=
  let cs := text.toList
  match scan? cs with
  | some (.openBrace, rest) =>
    (fields (2 * cs.length + 2) [] rest).map fun (es, _) => spreadEntries [] es
  | _ => none

end HaloMesh.Config.Hcl.Object
