import HaloMesh.Transport.Program
import Mathlib.Data.List.Basic

/-! The requests of one rank with the answers it got. A program is followed through any
answers at all: what the mail really answers is a matter of the world it runs in. -/

namespace HaloMesh.Transport

variable {μ β γ : Type}

/-- A request of a rank with the answer it got. -/
inductive Event (μ : Type) where
  | post (key : MailKey) (message : μ)
  | claim (key : MailKey) (number : Nat)
  | receive (key : MailKey) (number : Int) (answer : Option μ)
  | pending (sender receiver : Int) (tags : List Int)

namespace Event

def posted? (key : MailKey) : Event μ → Option μ
  | post other message => if other = key then some message else none
  | _ => none

def claimed? (key : MailKey) : Event μ → Option Nat
  | claim other number => if other = key then some number else none
  | _ => none

def delivered? (key : MailKey) : Event μ → Option Int
  | receive other number (some _) => if other = key then some number else none
  | _ => none

def posts (key : MailKey) (events : List (Event μ)) : List μ := events.filterMap (posted? key)

def claims (key : MailKey) (events : List (Event μ)) : List Nat := events.filterMap (claimed? key)

def deliveries (key : MailKey) (events : List (Event μ)) : List Int :=
  events.filterMap (delivered? key)

@[simp] theorem posts_append (key : MailKey) (first second : List (Event μ)) :
    posts key (first ++ second) = posts key first ++ posts key second := List.filterMap_append

@[simp] theorem claims_append (key : MailKey) (first second : List (Event μ)) :
    claims key (first ++ second) = claims key first ++ claims key second := List.filterMap_append

@[simp] theorem deliveries_append (key : MailKey) (first second : List (Event μ)) :
    deliveries key (first ++ second) = deliveries key first ++ deliveries key second :=
  List.filterMap_append

@[simp] theorem posts_singleton (key : MailKey) (event : Event μ) : posts key [event] = (posted? key event).toList := by
  cases found : posted? key event <;> simp [posts, found]

@[simp] theorem claims_singleton (key : MailKey) (event : Event μ) :
    claims key [event] = (claimed? key event).toList := by
  cases found : claimed? key event <;> simp [claims, found]

@[simp] theorem deliveries_singleton (key : MailKey) (event : Event μ) :
    deliveries key [event] = (delivered? key event).toList := by
  cases found : delivered? key event <;> simp [deliveries, found]

theorem posted?_eq_some {key : MailKey} {event : Event μ} {message : μ} :
    posted? key event = some message ↔ event = post key message := by
  cases event with
  | post => simp [posted?]
  | claim | receive | pending => simp [posted?]

theorem claimed?_eq_some {key : MailKey} {event : Event μ} {number : Nat} :
    claimed? key event = some number ↔ event = claim key number := by
  cases event with
  | claim => simp [claimed?]
  | post | receive | pending => simp [claimed?]

theorem delivered?_eq_some {key : MailKey} {event : Event μ} {number : Int} :
    delivered? key event = some number ↔ ∃ message, event = receive key number (some message) := by
  cases event with
  | receive other content answer => cases answer <;> simp [delivered?]
  | post | claim | pending => simp [delivered?]

theorem mem_posts {key : MailKey} {events : List (Event μ)} {message : μ} :
    message ∈ posts key events ↔ post key message ∈ events := by
  simp only [posts, List.mem_filterMap, posted?_eq_some, exists_eq_right]

theorem mem_claims {key : MailKey} {events : List (Event μ)} {number : Nat} :
    number ∈ claims key events ↔ claim key number ∈ events := by
  simp only [claims, List.mem_filterMap, claimed?_eq_some, exists_eq_right]

theorem mem_deliveries {key : MailKey} {events : List (Event μ)} {number : Int} :
    number ∈ deliveries key events ↔ ∃ message, receive key number (some message) ∈ events := by
  simp only [deliveries, List.mem_filterMap, delivered?_eq_some]
  constructor
  · intro holds
    obtain ⟨event, member, message, rfl⟩ := holds
    exact ⟨message, member⟩
  · intro holds
    obtain ⟨message, member⟩ := holds
    exact ⟨_, member, message, rfl⟩

end Event

namespace Program

/-- A program goes through events, whatever the answers in them, and becomes another. -/
inductive Path : Program μ β → List (Event μ) → Program μ β → Prop where
  | here (p : Program μ β) : Path p [] p
  | post {key : MailKey} {message : μ} {next q : Program μ β} {events : List (Event μ)}
      (rest : Path next events q) : Path (post key message next) (.post key message :: events) q
  | claim {key : MailKey} {next : Nat → Program μ β} {q : Program μ β} {events : List (Event μ)}
      (number : Nat) (rest : Path (next number) events q) :
      Path (claim key next) (.claim key number :: events) q
  | receive {key : MailKey} {number : Int} {next : Option μ → Program μ β} {q : Program μ β}
      {events : List (Event μ)} (answer : Option μ) (rest : Path (next answer) events q) :
      Path (receive key number next) (.receive key number answer :: events) q
  | pending {sender receiver : Int} {next : List Int → Program μ β} {q : Program μ β}
      {events : List (Event μ)} (tags : List Int) (rest : Path (next tags) events q) :
      Path (pending sender receiver next) (.pending sender receiver tags :: events) q

namespace Path

variable {p q r : Program μ β} {first second : List (Event μ)}

theorem trans (before : Path p first q) (after : Path q second r) : Path p (first ++ second) r := by
  induction before with
  | here => exact after
  | post _ ih => exact .post (ih after)
  | claim number _ ih => exact .claim number (ih after)
  | receive answer _ ih => exact .receive answer (ih after)
  | pending tags _ ih => exact .pending tags (ih after)

theorem bind (path : Path p first q) (f : β → Program μ γ) :
    Path (p.bind f) first (q.bind f) := by
  induction path with
  | here => exact .here _
  | post _ ih => exact .post ih
  | claim number _ ih => exact .claim number ih
  | receive answer _ ih => exact .receive answer ih
  | pending tags _ ih => exact .pending tags ih

theorem bind_finished {b : β} {f : β → Program μ γ} {q : Program μ γ}
    (before : Path p first (finished b)) (after : Path (f b) second q) :
    Path (p.bind f) (first ++ second) q :=
  (before.bind f).trans after

/-- A program that goes on with the result of another is either still within that one, or has
passed its end. -/
theorem of_bind {p : Program μ β} {f : β → Program μ γ} {events : List (Event μ)}
    {q : Program μ γ} (path : Path (p.bind f) events q) :
    (∃ p', Path p events p' ∧ q = p'.bind f) ∨
      ∃ first second b, events = first ++ second ∧ Path p first (finished b) ∧
        Path (f b) second q := by
  induction p generalizing events with
  | finished b => exact .inr ⟨[], events, b, rfl, .here _, path⟩
  | post key message next ih =>
    cases path with
    | here => exact .inl ⟨_, .here _, rfl⟩
    | post later =>
      rcases ih later with ⟨p', inside, same⟩ | ⟨first, second, b, rfl, inside, after⟩
      · exact .inl ⟨p', .post inside, same⟩
      · exact .inr ⟨_ :: first, second, b, rfl, .post inside, after⟩
  | claim key next ih =>
    cases path with
    | here => exact .inl ⟨_, .here _, rfl⟩
    | claim number later =>
      rcases ih number later with ⟨p', inside, same⟩ | ⟨first, second, b, rfl, inside, after⟩
      · exact .inl ⟨p', .claim number inside, same⟩
      · exact .inr ⟨_ :: first, second, b, rfl, .claim number inside, after⟩
  | receive key number next ih =>
    cases path with
    | here => exact .inl ⟨_, .here _, rfl⟩
    | receive answer later =>
      rcases ih answer later with ⟨p', inside, same⟩ | ⟨first, second, b, rfl, inside, after⟩
      · exact .inl ⟨p', .receive answer inside, same⟩
      · exact .inr ⟨_ :: first, second, b, rfl, .receive answer inside, after⟩
  | pending sender receiver next ih =>
    cases path with
    | here => exact .inl ⟨_, .here _, rfl⟩
    | pending tags later =>
      rcases ih tags later with ⟨p', inside, same⟩ | ⟨first, second, b, rfl, inside, after⟩
      · exact .inl ⟨p', .pending tags inside, same⟩
      · exact .inr ⟨_ :: first, second, b, rfl, .pending tags inside, after⟩

theorem of_bind_finished {p : Program μ β} {f : β → Program μ γ} {events : List (Event μ)}
    {c : γ} (path : Path (p.bind f) events (finished c)) :
    ∃ first second b, events = first ++ second ∧ Path p first (finished b) ∧
      Path (f b) second (finished c) := by
  rcases path.of_bind with ⟨p', inside, same⟩ | split
  · cases p' with
    | finished b =>
      refine ⟨events, [], b, by simp, inside, ?_⟩
      change finished c = f b at same
      rw [← same]
      exact .here _
    | post | claim | receive | pending => simp [Program.bind] at same
  · exact split

/-- Whatever has happened to a program, it can still come to an end. -/
theorem completes (p : Program μ β) : ∃ events b, Path p events (finished b) := by
  induction p with
  | finished b => exact ⟨[], b, .here _⟩
  | post key message next ih =>
    obtain ⟨events, b, path⟩ := ih
    exact ⟨_, b, .post path⟩
  | claim key next ih =>
    obtain ⟨events, b, path⟩ := ih 0
    exact ⟨_, b, .claim 0 path⟩
  | receive key number next ih =>
    obtain ⟨events, b, path⟩ := ih none
    exact ⟨_, b, .receive none path⟩
  | pending sender receiver next ih =>
    obtain ⟨events, b, path⟩ := ih []
    exact ⟨_, b, .pending [] path⟩

theorem finished_eq {b c : β} {events : List (Event μ)}
    (path : Path (finished b) events (finished c)) : events = [] ∧ b = c := by
  cases path
  exact ⟨rfl, rfl⟩

end Path

end Program

end HaloMesh.Transport
