import HaloMesh.Text.Number

/-! Texts from bytes, and bytes written with sixty-four signs. -/

namespace HaloMesh.Text

/-- The character that the first bytes of a list are, with the number of those bytes. -/
def leadingChar? (bytes : List UInt8) : Option (Char × Nat) :=
  [1, 2, 3, 4].findSome? fun width =>
    let front := bytes.take width
    match String.fromUTF8? ⟨front.toArray⟩ with
    | some s => if front.length = width then s.toList.head?.map fun c => (c, width) else none
    | none => none

/-- The characters of bytes. A byte that belongs to none counts as an unknown one. -/
def charsOfBytes : (steps : Nat) → List UInt8 → List Char
  | 0, _ => []
  | _, [] => []
  | steps + 1, b :: rest =>
    match leadingChar? (b :: rest) with
    | some (c, width) => c :: charsOfBytes steps (rest.drop (width - 1))
    | none => Char.ofNat 0xfffd :: charsOfBytes steps rest

def ofBytes (bytes : List UInt8) : String := String.ofList (charsOfBytes bytes.length bytes)

/-- The value of one of the sixty-four signs. -/
def base64Value? (c : Char) : Option Nat :=
  if 'A' ≤ c ∧ c ≤ 'Z' then some (c.toNat - 65)
  else if 'a' ≤ c ∧ c ≤ 'z' then some (c.toNat - 71)
  else if isDigit c then some (c.toNat + 4)
  else if c = '+' then some 62
  else if c = '/' then some 63
  else none

/-- The bytes of up to four signs: one byte for two of them, two for three, three for four. -/
def base64Group? (cs : List Char) : Option (List UInt8) := do
  let n ← cs.foldlM (fun n c => do return n * 64 + (← base64Value? c)) 0
  match cs.length with
  | 2 => some [(n / 16).toUInt8]
  | 3 => some [(n / 1024).toUInt8, (n / 4).toUInt8]
  | 4 => some [(n / 65536).toUInt8, (n / 256).toUInt8, n.toUInt8]
  | _ => none

/-- The bytes of groups of four signs, the last of which is filled up. -/
def base64Bytes? : List Char → Option (List UInt8)
  | [] => some []
  | [a, b, '=', '='] => base64Group? [a, b]
  | [a, b, c, '='] => base64Group? [a, b, c]
  | a :: b :: c :: d :: rest => do
    let bytes ← base64Group? [a, b, c, d]
    return bytes ++ (← base64Bytes? rest)
  | _ => none

/-- The text of bytes written with sixty-four signs. Line ends do not count. -/
def ofBase64? (s : String) : Option String :=
  (base64Bytes? (s.toList.filter fun c => c ≠ '\n' && c ≠ '\r')).map ofBytes

end HaloMesh.Text
