import HaloMesh.Fourier.Radix

/-! The fast transform of real lines. The number of points is split into factors, and each
factor is one stage: it joins the modes of shorter lines, taken in steps over the line, to
the modes of longer ones. The inverse runs the stages the other way round. -/

namespace HaloMesh.Fourier

/-- Divides a factor out as often as it goes, and tells how often. -/
def divideOut (p n : Nat) : Nat × Nat :=
  if h : 1 < p ∧ 0 < n ∧ n % p = 0 then
    have : n / p < n := Nat.div_lt_self h.2.1 h.1
    let (times, rest) := divideOut p (n / p)
    (times + 1, rest)
  else (0, n)
termination_by n

/-- The odd factors of a number, from `p` on. -/
def oddFactors (fuel p n : Nat) : List Nat :=
  match fuel with
  | 0 => []
  | fuel + 1 =>
    if n ≤ 1 then []
    else
      let (times, rest) := divideOut p n
      List.replicate times p ++ oddFactors fuel (p + 2) rest

/-- The factors of a number: a two that is left over from the fours comes first, then the
fours, and the odd ones in ascending order. -/
def factors (n : Nat) : List Nat :=
  let (fours, n) := divideOut 4 n
  let (twos, n) := divideOut 2 n
  List.replicate twos 2 ++ List.replicate fours 4 ++ oddFactors n 3 n

/-- One factor of the transform, between those before and those after it. The turns stand
for each point but the first and for each mode of the shorter lines. -/
structure Stage (α : Type) where
  radix : Radix α
  before : Nat
  after : Nat
  turns : List (Array (Complex α))

namespace Stage

variable {α : Type} [Scalar α]

/-- The stage for a factor of `n` points. -/
def make (n before factor : Nat) : Stage α :=
  let after := n / (before * factor)
  let least : α := 2 * Scalar.pi / Scalar.ofInt n
  { radix := Radix.ofPoints factor
    before, after
    turns := (List.range (factor - 1)).map fun j =>
      let step := Scalar.ofInt ((j + 1) * before : Nat) * least
      ((List.range ((after - 1) / 2)).map fun i =>
        let angle := Scalar.ofInt (i + 1 : Nat) * step
        (⟨Scalar.cos angle, Scalar.sin angle⟩ : Complex α)).toArray }

/-- The stages of a list of factors. -/
def chain (n : Nat) : Nat → List Nat → List (Stage α)
  | _, [] => []
  | before, f :: rest => make n before f :: chain n (before * f) rest

/-- The place of entry `i` of shorter line `k`, point `j` of the stage. -/
def apart (s : Stage α) (i k j : Nat) : Nat := i + s.after * (k + s.before * j)

/-- The place of entry `i` of mode number `q` of longer line `k`. -/
def joined (s : Stage α) (i q k : Nat) : Nat := i + s.after * (q + s.radix.points * k)

/-- The turns of all points for mode `i` of the shorter lines. -/
def turnsAt (s : Stage α) (i : Nat) : List (Complex α) :=
  s.turns.map fun ws => ws.getD (i - 1) ⟨0, 0⟩

/-- The first modes of the shorter lines, which are real, stand at the ends of the longer
one. -/
def endPlace (s : Stage α) (k q : Nat) : Nat :=
  s.joined (if q % 2 = 1 then s.after - 1 else 0) q k

/-- The unpaired modes of the shorter lines stand at the ends that are left. -/
def middlePlace (s : Stage α) (k q : Nat) : Nat :=
  s.joined (if q % 2 = 1 then 0 else s.after - 1) q k

/-- The real part of a paired mode; negative frequencies run backwards. -/
def pairPlace (s : Stage α) (i k q : Nat) : Nat :=
  s.joined (if q % 2 = 1 then s.after - 1 - 2 * i else 2 * i - 1) q k

def read (line : Array α) (place : Nat → Nat) (count : Nat) : List α :=
  (List.range count).map fun j => line.getD (place j) 0

def readPairs (line : Array α) (place : Nat → Nat) (count : Nat) : List (Complex α) :=
  (List.range count).map fun j => ⟨line.getD (place j) 0, line.getD (place j + 1) 0⟩

def write (place : Nat → Nat) (values : List α) (line : Array α) : Array α :=
  values.zipIdx.foldl (fun (a : Array α) (v, j) => a.setIfInBounds (place j) v) line

def writePairs (place : Nat → Nat) (values : List (Complex α)) (line : Array α) : Array α :=
  values.zipIdx.foldl (fun (a : Array α) (z, j) =>
    (a.setIfInBounds (place j) z.re).setIfInBounds (place j + 1) z.im) line

/-- The modes of the paired frequencies, counted from one. -/
def pairs (s : Stage α) : List Nat := (List.range ((s.after - 1) / 2)).map (· + 1)

/-- Whether the shorter lines have an unpaired mode. -/
def hasMiddle (s : Stage α) : Bool := decide (s.after % 2 = 0)

/-- Joins the modes of the shorter lines. -/
def forward (s : Stage α) (line : Array α) : Array α :=
  let p := s.radix.points
  (List.range s.before).foldl (fun out k =>
    let out := write (s.endPlace k) (s.radix.modes (read line (s.apart 0 k) p)) out
    let out := s.pairs.foldl (fun out i =>
      let inputs := readPairs line (s.apart (2 * i - 1) k) p
      let turned := inputs.take 1 ++
        List.zipWith (fun w z => w.conj * z) (s.turnsAt i) (inputs.drop 1)
      writePairs (s.pairPlace i k) (s.radix.complexModes turned) out) out
    if s.hasMiddle then
      write (s.middlePlace k)
        (s.radix.halfTurnModes (read line (s.apart (s.after - 1) k) p)) out
    else out) line

/-- Splits the modes of a longer line. -/
def backward (s : Stage α) (line : Array α) : Array α :=
  let p := s.radix.points
  (List.range s.before).foldl (fun out k =>
    let out := write (s.apart 0 k) (s.radix.values (read line (s.endPlace k) p)) out
    let out := s.pairs.foldl (fun out i =>
      let values := s.radix.complexValues (readPairs line (s.pairPlace i k) p)
      let turned := values.take 1 ++ List.zipWith (· * ·) (s.turnsAt i) (values.drop 1)
      writePairs (s.apart (2 * i - 1) k) turned out) out
    if s.hasMiddle then
      write (s.apart (s.after - 1) k)
        (s.radix.halfTurnValues (read line (s.middlePlace k) p)) out
    else out) line

end Stage

variable {α : Type} [Scalar α]

/-- The modes of a line from its packed form: the mean, then real and imaginary parts. -/
def unpack (n : Nat) (packed : Array α) : List (Complex α) :=
  (List.range (n / 2 + 1)).map fun k =>
    if k = 0 then ⟨packed.getD 0 0, 0⟩
    else if 2 * k = n then ⟨packed.getD (n - 1) 0, 0⟩
    else ⟨packed.getD (2 * k - 1) 0, packed.getD (2 * k) 0⟩

/-- The packed form of modes. The mean and the unpaired mode leave out their imaginary
parts. -/
def pack (n : Nat) (modes : List (Complex α)) : Array α :=
  (modes.zipIdx.flatMap fun (z, k) =>
    if k = 0 || 2 * k = n then [z.re] else [z.re, z.im]).toArray

/-- The modes of a line, stage by stage from the last factor to the first. -/
def analyse (n : Nat) (stages : List (Stage α)) (line : Array α) : List (Complex α) :=
  unpack n (stages.foldr Stage.forward line)

/-- The line with the given modes, times the number of points. -/
def synthesise (n : Nat) (stages : List (Stage α)) (modes : List (Complex α)) : Array α :=
  stages.foldl (fun line s => s.backward line) (pack n modes)

end HaloMesh.Fourier
