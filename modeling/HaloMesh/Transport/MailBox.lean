/-! Numbered mail between ranks. Every key, a sender, a receiver and a tag, counts its posts
and its claims independently; the `n`-th claim is for the `n`-th post, in whatever order
the claims are redeemed. Only messages that have not been delivered are kept. -/

namespace HaloMesh.Transport

structure MailKey where
  sender : Int
  receiver : Int
  tag : Int
deriving DecidableEq, Repr

/-- The mail of one key: how many messages were posted and claimed, and the undelivered
ones under their numbers. -/
structure Slot (μ : Type) where
  posted : Nat := 0
  claimed : Nat := 0
  parked : List (Nat × μ) := []
deriving Repr

namespace Slot

variable {μ : Type}

def post (s : Slot μ) (message : μ) : Slot μ :=
  { s with posted := s.posted + 1, parked := s.parked ++ [(s.posted, message)] }

def claim (s : Slot μ) : Slot μ := { s with claimed := s.claimed + 1 }

def find? (s : Slot μ) (number : Int) : Option μ :=
  (s.parked.find? fun m => (m.1 : Int) = number).map Prod.snd

/-- The slot after message `number` was delivered. -/
def discard (s : Slot μ) (number : Int) : Slot μ :=
  { s with parked := s.parked.filter fun m => (m.1 : Int) ≠ number }

end Slot

/-- One slot for every key that was ever used. -/
structure MailBox (μ : Type) where
  slots : List (MailKey × Slot μ) := []
deriving Repr

namespace MailBox

variable {μ : Type}

def empty : MailBox μ := {}

def slot (box : MailBox μ) (key : MailKey) : Slot μ :=
  ((box.slots.find? fun s => s.1 = key).map Prod.snd).getD {}

/-- Replaces the slot of a key, or adds it. -/
def putSlot {β : Type} (key : MailKey) (s : β) : List (MailKey × β) → List (MailKey × β)
  | [] => [(key, s)]
  | entry :: rest => if entry.1 = key then (key, s) :: rest else entry :: putSlot key s rest

def update (box : MailBox μ) (key : MailKey) (change : Slot μ → Slot μ) : MailBox μ :=
  ⟨putSlot key (change (box.slot key)) box.slots⟩

/-- Posting never waits. -/
def post (box : MailBox μ) (key : MailKey) (message : μ) : MailBox μ :=
  box.update key fun s => s.post message

/-- Reserves the next message in posting order and tells its number. -/
def claim (box : MailBox μ) (key : MailKey) : Nat × MailBox μ :=
  ((box.slot key).claimed, box.update key Slot.claim)

/-- Delivers message `number` of a key, if it was posted and not delivered before. -/
def take? (box : MailBox μ) (key : MailKey) (number : Int) : Option (μ × MailBox μ) :=
  ((box.slot key).find? number).map fun message =>
    (message, box.update key fun s => s.discard number)

/-- The tags with undelivered messages from one rank to another, in ascending order. -/
def pendingTags (box : MailBox μ) (sender receiver : Int) : List Int :=
  let waiting := box.slots.filter fun (key, s) =>
    key.sender = sender && key.receiver = receiver && !s.parked.isEmpty
  (waiting.map fun entry => entry.1.tag).mergeSort fun a b => decide (a ≤ b)

end MailBox

end HaloMesh.Transport
