import HaloMesh.Index.Span
import HaloMesh.Index.Word

/-! A walk over the integers of several segments, in the order given. Empty segments are
dropped at the start. The walk can be restarted at any time; at the end it stays where
it is. The integers are words, so a segment up to the greatest word has no end: the least
word comes next. -/

namespace HaloMesh.Index

/-- An inclusive run of words. -/
structure Segment where
  first : Int
  last : Int
deriving DecidableEq, Repr

namespace Segment

def isEmpty (s : Segment) : Bool := decide (s.last < s.first)

/-- The number of integers as a word. -/
def length (s : Segment) : Int := wrap (s.last - s.first + 1)

def contains (s : Segment) (i : Int) : Bool := decide (s.first ≤ i) && decide (i ≤ s.last)

end Segment

/-- A position in a list of segments: which segment, and the integer within it. -/
structure Walk where
  segments : List Segment
  segment : Nat
  current : Int
deriving DecidableEq, Repr

namespace Walk

def isDone (w : Walk) : Bool := decide (w.segments.length ≤ w.segment)

/-- Back to the first integer. Without segments there is none and the current integer
stays. -/
def restart (w : Walk) : Walk :=
  match w.segments with
  | [] => { w with segment := 0 }
  | s :: _ => { w with segment := 0, current := s.first }

/-- One step on, into the next segment at the end of one. -/
def advance (w : Walk) : Walk :=
  match w.segments[w.segment]? with
  | none => w
  | some s =>
    let after := next w.current
    if after ≤ s.last then { w with current := after }
    else
      match w.segments[w.segment + 1]? with
      | none => { w with segment := w.segment + 1, current := after }
      | some t => { w with segment := w.segment + 1, current := t.first }

/-- A walk at the first integer of the segments that have one. -/
def through (segments : List Segment) : Walk :=
  restart { segments := segments.filter fun s => !s.isEmpty, segment := 0, current := 0 }

/-- The number of integers of the whole walk as a word. -/
def length (w : Walk) : Int := w.segments.foldl (fun n s => wrap (n + s.length)) 0

/-- The integers met on the way to the end, after those met before. The loop does not end if the
walk does not. -/
def collect (met : List Int) (w : Walk) : List Int := Id.run do
  let mut met := met
  let mut w := w
  while !w.isDone do
    met := w.current :: met
    w := w.advance
  return met.reverse

/-- Every integer of the walk from its start; the walk itself does not move. -/
def indices (w : Walk) : List Int := collect [] w.restart

def contains (w : Walk) (i : Int) : Bool := w.segments.any fun s => s.contains i

end Walk

end HaloMesh.Index
