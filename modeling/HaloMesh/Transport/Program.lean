import HaloMesh.Transport.MailBox

/-! What one rank does, as the sequence of its requests to the shared mail. A program is plain
data: the same definition is run to completion by a scheduler and stepped through any
interleaving with other ranks. A receive is answered with its message, or with nothing
when the wait for it is given up. -/

namespace HaloMesh.Transport

inductive Program (μ β : Type) where
  | finished (result : β)
  | post (key : MailKey) (message : μ) (next : Program μ β)
  | claim (key : MailKey) (next : Nat → Program μ β)
  | receive (key : MailKey) (number : Int) (next : Option μ → Program μ β)
  | pending (sender receiver : Int) (next : List Int → Program μ β)

namespace Program

variable {μ β γ : Type}

/-- Goes on with the result of a program. -/
def bind : Program μ β → (β → Program μ γ) → Program μ γ
  | finished b, f => f b
  | post key message next, f => post key message (next.bind f)
  | claim key next, f => claim key fun n => (next n).bind f
  | receive key number next, f => receive key number fun m => (next m).bind f
  | pending sender receiver next, f => pending sender receiver fun tags => (next tags).bind f

instance : Monad (Program μ) where
  pure := finished
  bind := bind

theorem bind_finished (p : Program μ β) : p.bind finished = p := by
  induction p with
  | finished => rfl
  | post key message next ih => simp [bind, ih]
  | claim key next ih => simp [bind, ih]
  | receive key number next ih => simp [bind, ih]
  | pending sender receiver next ih => simp [bind, ih]

theorem bind_bind {δ : Type} (p : Program μ β) (f : β → Program μ γ) (g : γ → Program μ δ) :
    (p.bind f).bind g = p.bind fun b => (f b).bind g := by
  induction p with
  | finished => rfl
  | post key message next ih => simp [bind, ih]
  | claim key next ih => simp [bind, ih]
  | receive key number next ih => simp [bind, ih]
  | pending sender receiver next ih => simp [bind, ih]

instance : LawfulMonad (Program μ) :=
  LawfulMonad.mk' (Program μ) bind_finished (fun _ _ => rfl) bind_bind

/-- Sends a message on its way. -/
def sendMail (key : MailKey) (message : μ) : Program μ Unit := post key message (finished ())

/-- Reserves the next message of a key. -/
def claimMail (key : MailKey) : Program μ Nat := claim key finished

/-- Waits for a claimed message. -/
def awaitMail (key : MailKey) (number : Int) : Program μ (Option μ) :=
  receive key number finished

/-- Asks which tags have mail waiting. -/
def askPending (sender receiver : Int) : Program μ (List Int) :=
  pending sender receiver finished

def result? : Program μ β → Option β
  | finished b => some b
  | _ => none

/-- The next request, if it can be answered now: only a receive without its message has
to wait. -/
def step? : Program μ β → MailBox μ → Option (Program μ β × MailBox μ)
  | finished _, _ => none
  | post key message next, box => some (next, box.post key message)
  | claim key next, box =>
    let (n, box) := box.claim key
    some (next n, box)
  | receive key number next, box =>
    (box.take? key number).map fun (message, box) => (next (some message), box)
  | pending sender receiver next, box => some (next (box.pendingTags sender receiver), box)

/-- Gives up a wait. -/
def expire? : Program μ β → Option (Program μ β)
  | receive _ _ next => some (next none)
  | _ => none

/-- What a program can become by the answer to its next request. -/
inductive Child : Program μ β → Program μ β → Prop where
  | post (key : MailKey) (message : μ) (next : Program μ β) : Child next (post key message next)
  | claim (key : MailKey) (next : Nat → Program μ β) (n : Nat) : Child (next n) (claim key next)
  | receive (key : MailKey) (number : Int) (next : Option μ → Program μ β) (m : Option μ) :
    Child (next m) (receive key number next)
  | pending (sender receiver : Int) (next : List Int → Program μ β) (tags : List Int) :
    Child (next tags) (pending sender receiver next)

/-- No program makes requests for ever. -/
theorem child_acc (p : Program μ β) : Acc Child p := by
  induction p with
  | finished b => exact ⟨_, fun _ less => nomatch less⟩
  | post key message next ih => exact ⟨_, fun | _, .post .. => ih⟩
  | claim key next ih => exact ⟨_, fun | _, .claim _ _ n => ih n⟩
  | receive key number next ih => exact ⟨_, fun | _, .receive _ _ _ m => ih m⟩
  | pending sender receiver next ih => exact ⟨_, fun | _, .pending _ _ _ tags => ih tags⟩

theorem child_of_step? {p q : Program μ β} {box box' : MailBox μ}
    (stepped : p.step? box = some (q, box')) : Child q p := by
  cases p with
  | finished => simp [step?] at stepped
  | post key message next =>
    simp only [step?, Option.some.injEq, Prod.mk.injEq] at stepped
    obtain ⟨rfl, _⟩ := stepped
    exact .post ..
  | claim key next =>
    simp only [step?, Option.some.injEq, Prod.mk.injEq] at stepped
    obtain ⟨rfl, _⟩ := stepped
    exact .claim ..
  | receive key number next =>
    simp only [step?, Option.map_eq_some_iff] at stepped
    obtain ⟨_, _, same⟩ := stepped
    simp only [Prod.mk.injEq] at same
    obtain ⟨rfl, _⟩ := same
    exact .receive ..
  | pending sender receiver next =>
    simp only [step?, Option.some.injEq, Prod.mk.injEq] at stepped
    obtain ⟨rfl, _⟩ := stepped
    exact .pending ..

theorem child_of_expire? {p q : Program μ β} (expired : p.expire? = some q) : Child q p := by
  cases p with
  | receive key number next =>
    simp only [expire?, Option.some.injEq] at expired
    subst expired
    exact .receive ..
  | finished | post | claim | pending => simp [expire?] at expired

end Program

end HaloMesh.Transport
