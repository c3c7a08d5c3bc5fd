import HaloMesh.Config.Hcl.Token

/-! What the words of a file mean: entries with keys and a value. A setting is a key, an equals
sign and a value; a block has keys and braces. Lines do not matter. -/

namespace HaloMesh.Config.Hcl

/-- What keys stand for. -/
inductive Body where
  | plain (t : Token)
  | list (items : List Body)
  | block (entries : List (List Token × Body))

abbrev Entry := List Token × Body

namespace Body

def isBlock : Body → Bool
  | block _ => true
  | _ => false

end Body

/-- Why a value cannot be read. -/
inductive Fault where
  /-- The text ends before it. -/
  | atEnd
  /-- A closing brace stands in its place. -/
  | atBrace (rest : List Token)
  | broken

/-- Whether a word is a value. -/
def Token.isPlain : Token → Bool
  | .text _ => true
  | .lines _ => true
  | .whole _ => true
  | .real _ => true
  | .flag _ => true
  | _ => false

mutual

/-- A value that starts here, and the words left. -/
def body : (fuel : Nat) → List Token → Except Fault (Body × List Token)
  | 0, _ => .error .broken
  | fuel + 1, ts =>
    match ts with
    | [] => .error .atEnd
    | .openBrace :: rest => block fuel rest
    | .openBracket :: rest => items fuel false [] rest
    | .closeBrace :: rest => .error (.atBrace rest)
    | t :: rest => if t.isPlain then .ok (.plain t, rest) else .error .broken

/-- The entries of a block and its closing brace. A value that is missing before a brace ends
the entries, and another brace has to follow. -/
def block : (fuel : Nat) → List Token → Except Fault (Body × List Token)
  | 0, _ => .error .broken
  | fuel + 1, ts =>
    match entries fuel true [] ts with
    | (es, .ok (.closeBrace :: rest)) => .ok (.block es, rest)
    | (es, .error (.atBrace (.closeBrace :: rest))) => .ok (.block es, rest)
    | _ => .error .broken

/-- The items of a list; `needsComma` follows a plain value or a block. Commas may repeat. -/
def items : (fuel : Nat) → (needsComma : Bool) → (taken : List Body) → List Token →
    Except Fault (Body × List Token)
  | 0, _, _, _ => .error .broken
  | fuel + 1, needsComma, taken, ts =>
    match ts with
    | .comma :: rest => items fuel false taken rest
    | .closeBracket :: rest => .ok (.list taken.reverse, rest)
    | .closeBrace :: rest => .error (.atBrace rest)
    | [] => .error .broken
    | _ =>
      if needsComma then .error .broken
      else
        match body fuel ts with
        | .ok (.list inner, rest) => items fuel false (.list inner :: taken) rest
        | .ok (b, rest) => items fuel true (b :: taken) rest
        | .error f => .error f

/-- Entry after entry, up to a closing brace if told so, and the words left; `taken` is read
in reverse. A comma may follow an entry. -/
def entries : (fuel : Nat) → (inside : Bool) → (taken : List Entry) → List Token →
    List Entry × Except Fault (List Token)
  | 0, _, taken, _ => (taken.reverse, .error .broken)
  | fuel + 1, inside, taken, ts =>
    if inside && ts.head? = some .closeBrace then (taken.reverse, .ok ts)
    else
      match entry fuel [] ts with
      | .ok (e, .comma :: rest) => entries fuel inside (e :: taken) rest
      | .ok (e, rest) => entries fuel inside (e :: taken) rest
      | .error .atEnd => (taken.reverse, .ok [])
      | .error f => (taken.reverse, .error f)

/-- The keys of an entry and its value. Only one key stands before an equals sign. -/
def entry : (fuel : Nat) → (keys : List Token) → List Token → Except Fault (Entry × List Token)
  | 0, _, _ => .error .broken
  | fuel + 1, keys, ts =>
    match ts with
    | [] => .error (if keys.isEmpty then .atEnd else .broken)
    | .word s :: rest => entry fuel (keys ++ [.word s]) rest
    | .text s :: rest => entry fuel (keys ++ [.text s]) rest
    | .assign :: rest =>
      if keys.length ≠ 1 then .error .broken
      else (body fuel rest).map fun (b, rest) => ((keys, b), rest)
    | .openBrace :: rest =>
      if keys.isEmpty then .error .broken
      else (block fuel rest).map fun (b, rest) => ((keys, b), rest)
    | _ => .error .broken

end

/-- The entries of a text, none if it is malformed. -/
def entriesOf? (text : String) : Option (List Entry) := do
  let ts ← tokensOf? text
  match entries (2 * ts.length + 3) false [] ts with
  | (es, .ok []) => some es
  | _ => none

end HaloMesh.Config.Hcl
