import HaloMesh.Transport.MailBox

/-! Mail that is called directly, one call after the other, so that a receiver who finds no message gives up. Messages
change hands in boxes with room for one. A box is made by whoever asks for its number first, the sender or the receiver,
and is thrown away when its message is taken out; a receiver who gives up leaves it behind. -/

namespace HaloMesh.Transport

inductive MailCall (μ : Type) where
  | post (key : MailKey) (message : μ)
  | claim (key : MailKey)
  | receiveClaimed (key : MailKey) (number : Int)
  /-- Claims the next message and receives it. -/
  | receive (key : MailKey)
  | pending (sender receiver : Int)
deriving Repr

inductive MailAnswer (μ : Type) where
  | done
  | number (n : Nat)
  /-- The message, none if the receiver gave up. -/
  | message (m : Option μ)
  | tags (tags : List Int)
deriving DecidableEq, Repr

variable {μ : Type}

namespace MailBox

def receiveClaimed (box : MailBox μ) (key : MailKey) (number : Int) : Option μ × MailBox μ :=
  match box.take? key number with
  | some (message, box) => (some message, box)
  | none => (none, box)

def answer (box : MailBox μ) : MailCall μ → MailAnswer μ × MailBox μ
  | .post key message => (.done, box.post key message)
  | .claim key => (box.claim key).map MailAnswer.number id
  | .receiveClaimed key number => (box.receiveClaimed key number).map MailAnswer.message id
  | .receive key =>
    let (number, box) := box.claim key
    (box.receiveClaimed key number).map MailAnswer.message id
  | .pending sender receiver => (.tags (box.pendingTags sender receiver), box)

def answers (box : MailBox μ) : List (MailCall μ) → List (MailAnswer μ)
  | [] => []
  | call :: rest => (box.answer call).1 :: answers (box.answer call).2 rest

end MailBox

/-- The counts of a key, and its boxes with what is in them. -/
structure Tray (μ : Type) where
  posted : Nat := 0
  claimed : Nat := 0
  boxes : List (Int × Option μ) := []
deriving Repr

namespace Tray

/-- What is in the box of a number. -/
def held? (t : Tray μ) (number : Int) : Option μ := ((t.boxes.find? fun b => b.1 = number).map Prod.snd).getD none

/-- Makes the box of a number, unless there is one. -/
def withBox (t : Tray μ) (number : Int) : Tray μ :=
  if t.boxes.any fun b => b.1 = number then t else { t with boxes := t.boxes ++ [(number, none)] }

/-- Puts a message into the box of a number. At a full box the sender would wait forever. -/
def put? (t : Tray μ) (number : Int) (message : μ) : Option (Tray μ) :=
  match t.held? number with
  | some _ => none
  | none => some { t with boxes := t.boxes.map fun b => if b.1 = number then (number, some message) else b }

def post? (t : Tray μ) (message : μ) : Option (Tray μ) :=
  put? { t.withBox t.posted with posted := t.posted + 1 } t.posted message

def claim (t : Tray μ) : Tray μ := { t with claimed := t.claimed + 1 }

def receive (t : Tray μ) (number : Int) : Option μ × Tray μ :=
  let t := t.withBox number
  match t.held? number with
  | some message => (some message, { t with boxes := t.boxes.filter fun b => b.1 ≠ number })
  | none => (none, t)

def isWaiting (t : Tray μ) : Bool := t.boxes.any fun b => b.2.isSome

end Tray

/-- The trays of the keys that were ever used. -/
structure PostOffice (μ : Type) where
  trays : List (MailKey × Tray μ) := []
deriving Repr

namespace PostOffice

def empty : PostOffice μ := {}

def tray (office : PostOffice μ) (key : MailKey) : Tray μ :=
  ((office.trays.find? fun t => t.1 = key).map Prod.snd).getD {}

def put (office : PostOffice μ) (key : MailKey) (t : Tray μ) : PostOffice μ := ⟨MailBox.putSlot key t office.trays⟩

def pendingTags (office : PostOffice μ) (sender receiver : Int) : List Int :=
  let waiting := office.trays.filter fun (key, t) =>
    key.sender = sender && key.receiver = receiver && t.isWaiting
  (waiting.map fun entry => entry.1.tag).mergeSort fun a b => decide (a ≤ b)

/-- The answer to a call, none if it never returns. -/
def answer? (office : PostOffice μ) : MailCall μ → Option (MailAnswer μ × PostOffice μ)
  | .post key message => ((office.tray key).post? message).map fun t => (.done, office.put key t)
  | .claim key => some (.number (office.tray key).claimed, office.put key (office.tray key).claim)
  | .receiveClaimed key number =>
    let (message, t) := (office.tray key).receive number
    some (.message message, office.put key t)
  | .receive key =>
    let number := (office.tray key).claimed
    let (message, t) := (office.tray key).claim.receive number
    some (.message message, office.put key t)
  | .pending sender receiver => some (.tags (office.pendingTags sender receiver), office)

def answers? (office : PostOffice μ) : List (MailCall μ) → Option (List (MailAnswer μ))
  | [] => some []
  | call :: rest => do
    let (answer, office) ← office.answer? call
    let later ← office.answers? rest
    return answer :: later

end PostOffice

end HaloMesh.Transport
