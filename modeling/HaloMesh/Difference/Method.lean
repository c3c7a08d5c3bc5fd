import HaloMesh.Location

/-! Differencing methods, the kinds of derivative they serve, and which methods exist for
which kind. A family is one kind of derivative, either with input and output at the same
place or half a cell apart. -/

namespace HaloMesh

inductive Method where
  | standard | u1 | u2 | u3 | c2 | c4 | w2 | w3 | s2 | split | fft
deriving DecidableEq, Repr

namespace Method

def all : List Method := [standard, u1, u2, u3, c2, c4, w2, w3, s2, split, fft]

/-- The option value that names a method. -/
def key : Method → String
  | standard => "DEFAULT"
  | u1 => "U1"
  | u2 => "U2"
  | u3 => "U3"
  | c2 => "C2"
  | c4 => "C4"
  | w2 => "W2"
  | w3 => "W3"
  | s2 => "S2"
  | split => "SPLIT"
  | fft => "FFT"

def description : Method → String
  | standard => "Default method"
  | u1 => "First order upwinding"
  | u2 => "Second order upwinding"
  | u3 => "Third order upwinding"
  | c2 => "Second order central"
  | c4 => "Fourth order central"
  | w2 => "Second order WENO"
  | w3 => "Third order WENO"
  | s2 => "Smoothing 2nd order"
  | split => "Split into upwind and central"
  | fft => "FFT"

def name (m : Method) : String := "DIFF_" ++ m.key

def code : Method → Nat
  | standard => 0
  | u1 => 1
  | u2 => 2
  | u3 => 3
  | c2 => 4
  | c4 => 5
  | w2 => 6
  | w3 => 7
  | s2 => 8
  | split => 9
  | fft => 10

def ofCode? (n : Nat) : Option Method := all[n]?

/-- The name of a code, also of one that stands for no method. -/
def codeName (n : Nat) : String :=
  match ofCode? n with
  | some m => m.name
  | none => s!"DiffMethod({n})"

/-- Reads an option value, blanks and case aside. -/
def ofKey? (key : String) : Option Method :=
  let wanted := Text.upper (Text.trimBlanks key)
  all.find? fun m => m.key = wanted

end Method

/-- The keys of some methods in alphabetical order. -/
def sortedKeys (methods : List Method) : List String :=
  (methods.map Method.key).mergeSort fun a b => decide (a ≤ b)

/-- First, second and fourth derivatives of a field, the upwinded `v df/dx` and the
conservative `d(v f)/dx`. -/
inductive Kind where
  | first | second | fourth | upwind | flux
deriving DecidableEq, Repr

namespace Kind

def all : List Kind := [first, second, fourth, upwind, flux]

def name : Kind → String
  | first => "First"
  | second => "Second"
  | fourth => "Fourth"
  | upwind => "Upwind"
  | flux => "Flux"

/-- The option key of a kind. -/
def key : Kind → String
  | first => "first"
  | second => "second"
  | fourth => "fourth"
  | upwind => "upwind"
  | flux => "flux"

def ofCode? (n : Nat) : Option Kind := all[n]?

/-- The kinds that take a velocity and a field. -/
def isFlow : Kind → Bool
  | upwind => true
  | flux => true
  | _ => false

end Kind

structure Family where
  kind : Kind
  staggered : Bool
deriving DecidableEq, Repr

namespace Family

/-- The option key of a family, such as `firststag`. -/
def key (f : Family) : String := f.kind.key ++ (if f.staggered then "stag" else "")

/-- The methods of a family in table order. Staggered fourth derivatives have none. -/
def methods : Family → List Method
  | ⟨.first, false⟩ => [.c2, .w2, .c4, .s2, .fft]
  | ⟨.second, false⟩ => [.c2, .c4, .fft]
  | ⟨.fourth, false⟩ => [.c2]
  | ⟨.upwind, false⟩ => [.u1, .u2, .c2, .u3, .w3, .c4]
  | ⟨.flux, false⟩ => [.split, .u1, .c2, .c4]
  | ⟨.first, true⟩ => [.c2, .c4]
  | ⟨.second, true⟩ => [.c2]
  | ⟨.fourth, true⟩ => []
  | ⟨.upwind, true⟩ => [.u1, .c2]
  | ⟨.flux, true⟩ => [.split, .u1]

/-- A family exists if it has a method. -/
def isTable (f : Family) : Bool := !f.methods.isEmpty

/-- The families that exist, in the order their defaults are settled. -/
def tables : List Family :=
  (Kind.all.flatMap fun k => [⟨k, false⟩, ⟨k, true⟩]).filter isTable

def methodKeys (f : Family) : List String := sortedKeys f.methods

/-- The method a family uses when nothing else is asked for. -/
def fallback (f : Family) : Method := if f.kind.isFlow then .u1 else .c2

end Family

end HaloMesh
