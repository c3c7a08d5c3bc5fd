import HaloMesh.Transport.Request
import HaloMesh.Scalar

/-! Groups of ranks and sums over them. Every member of a group adds the members' values in
the order of the group, so all of them get the same sum to the last bit. -/

namespace HaloMesh.Transport

structure Communicator where
  endpoint : Endpoint
  ranks : List Int
deriving DecidableEq, Repr

namespace Communicator

/-- A group holds ranks of the world, the own one among them. The first rank outside the
world is reported before a missing membership. -/
def make (e : Endpoint) (ranks : List Int) : Except Error Communicator :=
  match ranks.find? fun r => !e.reaches r with
  | some r => .error (.badRank .member r)
  | none => if e.rank ∈ ranks then .ok ⟨e, ranks⟩ else .error (.notAMember e.rank ranks)

def size (c : Communicator) : Nat := c.ranks.length

/-- The own place in the group. -/
def rank (c : Communicator) : Nat := c.ranks.findIdx (· = c.endpoint.rank)

variable {α : Type} [Scalar α]

/-- Posts to and receives from every other member, in group order. -/
def exchangeAll (e : Endpoint) (values : Array α) (tag : Int) :
    List Int → Program (Array α) (List (Request α) × List (Request α))
  | [] => return ([], [])
  | r :: rest => do
    if r = e.rank then exchangeAll e values tag rest
    else
      let sent ← e.send r tag values
      let posted ← e.receive r tag (values.map fun _ => 0)
      let (sends, receives) ← exchangeAll e values tag rest
      return (sent :: sends, posted :: receives)

/-- The members' values in group order, the own ones in their place. -/
def inOrder (me : Int) (own : Array α) : List Int → List (Array α) → List (Array α)
  | [], _ => []
  | r :: ranks, received =>
    if r = me then own :: inOrder me own ranks received
    else
      match received with
      | [] => inOrder me own ranks []
      | b :: received => b :: inOrder me own ranks received

/-- Adds value lists element by element, from zeros. -/
def orderedSum (length : Nat) (values : List (Array α)) : Array α :=
  values.foldl (fun (sum : Array α) v => Array.zipWith (· + ·) sum v)
    (List.replicate length (0 : α)).toArray

/-- The sum of every member's values. All members call it with one tag and length. -/
def allReduceSum (c : Communicator) (values : Array α) (tag : Int) :
    Program (Array α) (Except Error (Array α)) := do
  let (sends, receives) ← exchangeAll c.endpoint values tag c.ranks
  let (done, errors) ← waitEach (receives ++ sends)
  match errors with
  | e :: _ => return .error (.within (.allReduce c.ranks) e)
  | [] =>
    let received := (done.take receives.length).map Request.buffer
    return .ok (orderedSum values.size (inOrder c.endpoint.rank values c.ranks received))

end Communicator

end HaloMesh.Transport
