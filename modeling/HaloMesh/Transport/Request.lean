import HaloMesh.Transport.World
import HaloMesh.Error

/-! Sends and receives of value lists between the ranks of a world. A receive is bound to its
message when it is posted. A request is waited on once; a wait that fails leaves the
receive buffer as it was. -/

namespace HaloMesh.Transport

/-- One rank's view of a world. -/
structure Endpoint where
  rank : Int
  size : Int
deriving DecidableEq, Repr

/-- A world has at least one rank. -/
def checkWorld (size : Int) : Outcome Unit :=
  if size < 1 then Outcome.raise (.worldSize size) else .ok ()

namespace Endpoint

def make (size rank : Int) : Outcome Endpoint :=
  if 0 ≤ rank ∧ rank < size then .ok ⟨rank, size⟩
  else Outcome.raise (.badRank .endpoint rank)

def reaches (e : Endpoint) (rank : Int) : Bool := decide (0 ≤ rank) && decide (rank < e.size)

end Endpoint

/-- What every rank of a world makes of its view, in the order of the ranks. An error is told for
the first rank that has one. -/
def onEveryRank {β : Type} (size : Int) (work : Endpoint → Outcome β) : Outcome (List β) := do
  checkWorld size
  (List.range size.toNat).mapM fun (rank : Nat) => (work ⟨rank, size⟩).mapError (Failure.onRank rank)

/-- What a request still has to do: nothing, report an error, or collect a message. -/
inductive Duty where
  | done
  | failed (e : Error)
  | collect (key : MailKey) (number : Nat)
deriving DecidableEq, Repr

structure Request (α : Type) where
  duty : Duty
  buffer : Array α := #[]
  consumed : Bool := false
deriving Repr

variable {α : Type}

/-- Posts a copy of the values. -/
def Endpoint.send (e : Endpoint) (destination tag : Int) (values : Array α) :
    Program (Array α) (Request α) :=
  if e.reaches destination then do
    Program.sendMail ⟨e.rank, destination, tag⟩ values
    return { duty := .done }
  else return { duty := .failed (.badRank .destination destination) }

/-- Posts a receive into a buffer, whose length the message has to match. -/
def Endpoint.receive (e : Endpoint) (source tag : Int) (buffer : Array α) :
    Program (Array α) (Request α) :=
  if e.reaches source then do
    let key : MailKey := ⟨source, e.rank, tag⟩
    let number ← Program.claimMail key
    return { duty := .collect key number, buffer }
  else return { duty := .failed (.badRank .source source), buffer }

/-- Completes a request, giving it back with its buffer filled or an error. -/
def Request.wait (r : Request α) : Program (Array α) (Request α × Option Error) :=
  if r.consumed then return (r, some .requestConsumed)
  else
    let spent := { r with consumed := true }
    match r.duty with
    | .done => return (spent, none)
    | .failed e => return (spent, some e)
    | .collect key number => do
      match ← Program.awaitMail key number with
      | none =>
        let tags ← Program.askPending key.sender key.receiver
        return (spent, some (.timeout key.receiver key.tag key.sender tags))
      | some message =>
        if message.size = r.buffer.size then return ({ spent with buffer := message }, none)
        else
          return (spent, some
            (.sizeMismatch key.receiver key.tag key.sender r.buffer.size message.size))

/-- Waits on every request and gives the errors in order. -/
def waitEach : List (Request α) → Program (Array α) (List (Request α) × List Error)
  | [] => return ([], [])
  | r :: rest => do
    let (r, e) ← r.wait
    let (rest, errors) ← waitEach rest
    return (r :: rest, e.toList ++ errors)

end HaloMesh.Transport
