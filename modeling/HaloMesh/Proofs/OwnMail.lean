import HaloMesh.Operator.Calculus
import HaloMesh.Proofs.ExchangeSequence
import HaloMesh.Proofs.MailLog
import HaloMesh.Proofs.RankOutcomes
import Mathlib.Logic.Function.Basic

/-! Ranks that keep to their own mail: they post and receive in their own name, and do not look at what is waiting. Then
every slot of the mail box is filled by one rank and emptied by one rank, so that turns of different ranks can be swapped.
A world that ends in every interleaving from some point on ends in this way whatever is done before. -/

namespace HaloMesh
open Transport Program

namespace Transport

variable {μ β γ : Type}

namespace Program

/-- A program that posts and receives in this name only and does not ask what mail is waiting. As long as no wait is given
up, its result has a property. -/
def KeepsTo (name : Int) (Ends : β → Prop) : Program μ β → Prop
  | finished b => Ends b
  | post key _ next => key.sender = name ∧ next.KeepsTo name Ends
  | claim key next => key.receiver = name ∧ ∀ n, (next n).KeepsTo name Ends
  | receive key _ next => key.receiver = name ∧ ∀ message, (next (some message)).KeepsTo name Ends
  | pending .. => False

variable {name other : Int} {P : β → Prop} {Q : γ → Prop} {p q p' q' : Program μ β} {key : MailKey} {s t t' : Slot μ}

theorem KeepsTo.bind {next : β → Program μ γ} (first : p.KeepsTo name P) (second : ∀ b, P b → (next b).KeepsTo name Q) :
    (p.bind next).KeepsTo name Q := by
  induction p with
  | finished b => exact second b first
  | post key message next ih => exact ⟨first.1, ih first.2⟩
  | claim key next ih => exact ⟨first.1, fun n => ih n (first.2 n)⟩
  | receive key number next ih => exact ⟨first.1, fun message => ih (some message) (first.2 message)⟩
  | pending => exact first.elim

theorem KeepsTo.mono {R : β → Prop} (keeps : p.KeepsTo name P) (weaker : ∀ b, P b → R b) : p.KeepsTo name R := by
  rw [← bind_finished p]
  exact keeps.bind weaker

/-- A program gets the answer to its next request out of the slot of a key. -/
inductive Takes : Program μ β → MailKey → Slot μ → Program μ β → Slot μ → Prop where
  | post (key : MailKey) (message : μ) (next : Program μ β) (s : Slot μ) :
    Takes (post key message next) key s next (s.post message)
  | claim (key : MailKey) (next : Nat → Program μ β) (s : Slot μ) : Takes (claim key next) key s (next s.claimed) s.claim
  | receive (key : MailKey) {number : Int} (next : Option μ → Program μ β) {s : Slot μ} {message : μ}
    (found : s.find? number = some message) :
    Takes (receive key number next) key s (next (some message)) (s.discard number)

theorem KeepsTo.step_iff (keeps : p.KeepsTo name P) {box box' : MailBox μ} :
    p.step? box = some (q, box') ↔ ∃ key s, Takes p key (box.slot key) q s ∧ box' = box.update key fun _ => s := by
  constructor
  · intro stepped
    cases p with
    | finished => cases stepped
    | post key message next =>
      cases stepped
      exact ⟨key, _, .post .., rfl⟩
    | claim key next =>
      cases stepped
      exact ⟨key, _, .claim .., rfl⟩
    | receive key number next =>
      obtain ⟨⟨message, rest⟩, taken, same⟩ := Option.map_eq_some_iff.mp stepped
      obtain ⟨found, here, taken⟩ := Option.map_eq_some_iff.mp taken
      cases same
      cases taken
      exact ⟨key, _, .receive key next here, rfl⟩
    | pending => exact keeps.elim
  · rintro ⟨key, s, takes, rfl⟩
    cases takes with
    | post | claim => rfl
    | receive _ next found =>
      rw [step?, MailBox.take?, found]
      rfl

theorem KeepsTo.takes (keeps : p.KeepsTo name P) (takes : Takes p key s q t) : q.KeepsTo name P := by
  cases takes with
  | post => exact keeps.2
  | claim => exact keeps.2 _
  | receive => exact keeps.2 _

theorem Takes.unique {slots : MailKey → Slot μ} {key' : MailKey} (first : Takes p key (slots key) q t)
    (second : Takes p key' (slots key') q' t') : key = key' ∧ q = q' ∧ t = t' := by
  cases first with
  | post | claim =>
    cases second
    exact ⟨rfl, rfl, rfl⟩
  | receive _ _ found =>
    cases second with
    | receive _ _ found' =>
      cases found.symm.trans found'
      exact ⟨rfl, rfl, rfl⟩

end Program

/-- Messages are kept under numbers that were given out. -/
def Slot.Numbered (s : Slot μ) : Prop := ∀ m ∈ s.parked, m.1 < s.posted

theorem Slot.Numbered.lt_of_found {s : Slot μ} {number : Int} {message : μ} (numbered : s.Numbered)
    (found : s.find? number = some message) : number < s.posted := by
  obtain ⟨m, entry, -⟩ := Option.map_eq_some_iff.mp found
  have here : (m.1 : Int) = number := by simpa using List.find?_some entry
  have less := numbered m (List.mem_of_find?_eq_some entry)
  omega

namespace Program

variable {name other : Int} {P : β → Prop} {p q p' q' : Program μ β} {key : MailKey} {s t t' : Slot μ}

theorem Takes.numbered (takes : Takes p key s q t) (numbered : s.Numbered) : t.Numbered := by
  cases takes with
  | post _ message =>
    intro m member
    rcases List.mem_append.mp member with member | member
    · exact Nat.lt_succ_of_lt (numbered m member)
    · obtain rfl := List.mem_singleton.mp member
      exact Nat.lt_succ_self _
  | claim => exact numbered
  | receive => exact fun m member => numbered m (List.mem_filter.mp member).1

/-- What is posted does not get in the way of the receiver. -/
theorem Takes.posted (takes : Takes p key s q t) (numbered : s.Numbered) (keeps : p.KeepsTo name P)
    (receives : key.sender ≠ name) (message : μ) : Takes p key (s.post message) q (t.post message) := by
  cases takes with
  | post => exact (receives keeps.1).elim
  | claim => exact .claim ..
  | @receive _ number next _ content found =>
    have kept : (s.post message).find? number = some content := by
      rw [Slot.find?_post, found]
      rfl
    have same : (s.post message).discard number = (s.discard number).post message := by
      have apart : (s.posted : Int) ≠ number := (numbered.lt_of_found found).ne'
      simp [Slot.post, Slot.discard, apart]
    exact same ▸ .receive key next kept

/-- Two ranks that use one slot can be answered in either order: one of them posts and the other one receives. -/
theorem Takes.swap (first : Takes p key s q t) (second : Takes p' key s q' t') (numbered : s.Numbered)
    (keeps : p.KeepsTo name P) (keeps' : p'.KeepsTo other P) (apart : name ≠ other) :
    ∃ u, Takes p' key t q' u ∧ Takes p key t' q u := by
  cases second with
  | post _ message =>
    have sender : key.sender = other := keeps'.1
    exact ⟨_, .post .., first.posted numbered keeps (sender.trans_ne apart.symm) message⟩
  | claim _ next =>
    cases first with
    | post _ message =>
      have sender : key.sender = name := keeps.1
      exact ⟨_, (Takes.claim key next s).posted numbered keeps' (sender.trans_ne apart) message, .post ..⟩
    | claim | receive => exact (apart (keeps.1.symm.trans keeps'.1)).elim
  | receive _ next found =>
    cases first with
    | post _ message =>
      have sender : key.sender = name := keeps.1
      exact ⟨_, (Takes.receive key next found).posted numbered keeps' (sender.trans_ne apart) message, .post ..⟩
    | claim | receive => exact (apart (keeps.1.symm.trans keeps'.1)).elim

end Program

/-- The programs of all ranks, and the slots of all keys whatever their order in the mail box. -/
abbrev View (μ β : Type) := List (Program μ β) × (MailKey → Slot μ)

def Situation.view (state : Situation μ β) : View μ β := (state.ranks, state.box.slot)

/-- One rank gets the answer to its request. -/
inductive Turn : View μ β → View μ β → Prop where
  | answered {ranks : List (Program μ β)} {slots : MailKey → Slot μ} {p q : Program μ β} {key : MailKey} {s : Slot μ}
      (rank : Nat) (found : ranks[rank]? = some p) (takes : Program.Takes p key (slots key) q s) :
      Turn (ranks, slots) (ranks.set rank q, Function.update slots key s)

/-- All ranks keep to their own mail. -/
structure View.OwnMail (v : View μ β) : Prop where
  own : ∀ (i : Nat) p, v.1[i]? = some p → p.KeepsTo i fun _ => True
  numbered : ∀ key, (v.2 key).Numbered

variable {v a b : View μ β} {start state next middle : Situation μ β} {results : Nat → β}

theorem View.OwnMail.turn (own : v.OwnMail) (turn : Turn v a) : a.OwnMail := by
  obtain ⟨rank, found, takes⟩ := turn
  refine ⟨fun i p here => ?_, fun key => ?_⟩
  · rw [List.getElem?_set] at here
    split at here
    next same =>
      subst same
      split at here
      · cases here
        exact (own.own _ _ found).takes takes
      · cases here
    next => exact own.own i p here
  · dsimp only
    rw [Function.update_apply]
    split
    · exact takes.numbered (own.numbered _)
    · exact own.numbered key

/-- Turns of different ranks can be swapped. -/
theorem Turn.diamond (own : v.OwnMail) (first : Turn v a) (second : Turn v b) : a = b ∨ ∃ c, Turn a c ∧ Turn b c := by
  obtain @⟨ranks, slots, p, q, key, s, i, found, takes⟩ := first
  obtain @⟨_, _, p', q', key', s', j, found', takes'⟩ := second
  by_cases same : i = j
  · -- a rank has one next request
    subst same
    cases found.symm.trans found'
    obtain ⟨rfl, rfl, rfl⟩ := takes.unique takes'
    exact .inl rfl
  have still : (ranks.set i q)[j]? = some p' := by rwa [List.getElem?_set_ne same]
  have still' : (ranks.set j q')[i]? = some p := by rwa [List.getElem?_set_ne (Ne.symm same)]
  have swapped : (ranks.set j q').set i q = (ranks.set i q).set j q' := List.set_comm _ _ (Ne.symm same)
  right
  by_cases shared : key = key'
  · -- one of the two fills the slot and the other one empties it
    subst shared
    obtain ⟨u, later, later'⟩ := takes.swap takes' (own.numbered key) (own.own i p found) (own.own j p' found')
      (Int.ofNat_inj.not.mpr same)
    have again (x : Slot μ) : Function.update (Function.update slots key x) key u = Function.update slots key u :=
      Function.update_idem ..
    refine ⟨((ranks.set i q).set j q', Function.update slots key u), ?_, ?_⟩
    · rw [← again s]
      exact .answered j still (by rwa [Function.update_self])
    · rw [← again s', ← swapped]
      exact .answered i still' (by rwa [Function.update_self])
  · refine ⟨((ranks.set i q).set j q', Function.update (Function.update slots key s) key' s'), ?_, ?_⟩
    · exact .answered j still (by rwa [Function.update_of_ne (Ne.symm shared)])
    · rw [Function.update_comm shared, ← swapped]
      exact .answered i still' (by rwa [Function.update_of_ne shared])

theorem Moves.turn (own : state.view.OwnMail) (moved : Moves state next) : Turn state.view next.view := by
  obtain @⟨ranks, box, box', p, q, rank, found, stepped⟩ := moved
  obtain ⟨key, s, takes, rfl⟩ := (own.own rank p found).step_iff.mp stepped
  have slots : (box.update key fun _ => s).slot = Function.update box.slot key s := by
    funext other
    rw [MailBox.slot_update, Function.update_apply]
  rw [Situation.view, Situation.view, slots]
  exact .answered rank found takes

theorem Turn.moves (own : state.view.OwnMail) (turn : Turn state.view v) : ∃ next, Moves state next := by
  obtain ⟨ranks, box⟩ := state
  generalize seen : Situation.view ⟨ranks, box⟩ = before at turn
  obtain ⟨rank, found, takes⟩ := turn
  cases seen
  exact ⟨_, .answered rank found ((own.own rank _ found).step_iff.mpr ⟨_, _, takes, rfl⟩)⟩

/-- A turn of ranks that keep to their own mail. -/
def OwnTurn (v a : View μ β) : Prop := v.OwnMail ∧ Turn v a

theorem OwnTurn.confluent (first : Relation.ReflTransGen OwnTurn v a) (second : Relation.ReflTransGen OwnTurn v b) :
    Relation.Join (Relation.ReflTransGen OwnTurn) a b := by
  refine Relation.church_rosser (fun v a b first second => ?_) first second
  rcases first.2.diamond first.1 second.2 with rfl | ⟨c, left, right⟩
  · exact ⟨a, .refl, .refl⟩
  · exact ⟨c, .single ⟨first.1.turn first.2, left⟩, .single ⟨second.1.turn second.2, right⟩⟩

theorem View.OwnMail.takesTurns (own : start.view.OwnMail) (reached : Relation.ReflTransGen Moves start state) :
    Relation.ReflTransGen OwnTurn start.view state.view ∧ state.view.OwnMail ∧ state.ranks.length = start.ranks.length := by
  induction reached with
  | refl => exact ⟨.refl, own, rfl⟩
  | tail _ moved ih =>
    obtain ⟨turns, own, size⟩ := ih
    have turn := moved.turn own
    refine ⟨turns.tail ⟨own, turn⟩, own.turn turn, ?_⟩
    obtain ⟨rank, found, stepped⟩ := moved
    rw [← size, List.length_set]

/-- What a world ends in from some point on, it ends in whatever else is done before. -/
theorem EndsIn.of_reached (ends : EndsIn middle results) (own : start.view.OwnMail)
    (reached : Relation.ReflTransGen Moves start middle) : EndsIn start results := by
  intro state other
  obtain ⟨last, onward, still⟩ := exists_last middle
  obtain ⟨done, delivered⟩ := (ends last onward).resolve_left fun ⟨next, moved⟩ => still next moved
  obtain ⟨toLast, ownLast, -⟩ := own.takesTurns (reached.trans onward)
  obtain ⟨toState, ownState, -⟩ := own.takesTurns other
  -- nobody can take a turn at the end of the known interleaving, so that the other one still leads there
  obtain ⟨common, fromLast, fromState⟩ := OwnTurn.confluent toLast toState
  have same : common = last.view := by
    rcases fromLast.cases_head with same | ⟨next, turn, -⟩
    · exact same.symm
    · obtain ⟨next, moved⟩ := turn.2.moves ownLast
      exact absurd moved (still next)
  rcases fromState.cases_head with ended | ⟨next, turn, -⟩
  · rw [same] at ended
    have ranks : state.ranks = last.ranks := congrArg Prod.fst ended
    have slots : state.box.slot = last.box.slot := congrArg Prod.snd ended
    rw [(own.takesTurns reached).2.2, ← ranks] at done
    exact .inr ⟨done, fun key => slots ▸ delivered key⟩
  · exact .inl (turn.2.moves ownState)

/-- What a world ends in, it ends in from every point on. -/
theorem EndsIn.at_reached (ends : EndsIn start results) (own : start.view.OwnMail)
    (reached : Relation.ReflTransGen Moves start middle) : EndsIn middle results := by
  intro state onward
  rw [(own.takesTurns reached).2.2]
  exact ends state (reached.trans onward)

/-- Worlds that can get to one and the same situation end alike. -/
theorem endsIn_iff_of_common {other : Situation μ β} (own : start.view.OwnMail) (own' : other.view.OwnMail)
    (first : Relation.ReflTransGen Moves start middle) (second : Relation.ReflTransGen Moves other middle) :
    EndsIn start results ↔ EndsIn other results :=
  ⟨fun ends => (ends.at_reached own first).of_reached own' second,
    fun ends => (ends.at_reached own' second).of_reached own first⟩

/-! What an exchange does. -/

section Requests

variable {α : Type} {name : Int}

/-- A request that can only be for mail to this rank. -/
def Request.IsFor (r : Request α) (name : Int) : Prop := ∀ key number, r.duty = .collect key number → key.receiver = name

theorem Endpoint.send_keepsTo (e : Endpoint) (destination tag : Int) (values : Array α) :
    (e.send destination tag values).KeepsTo e.rank fun r => r.IsFor e.rank := by
  unfold Endpoint.send
  split
  · exact ⟨rfl, fun _ _ collects => nomatch collects⟩
  · exact fun _ _ collects => nomatch collects

theorem Endpoint.receive_keepsTo (e : Endpoint) (source tag : Int) (buffer : Array α) :
    (e.receive source tag buffer).KeepsTo e.rank fun r => r.IsFor e.rank := by
  unfold Endpoint.receive
  split
  · refine ⟨rfl, fun n key number collects => ?_⟩
    cases collects
    rfl
  · exact fun _ _ collects => nomatch collects

theorem Request.wait_keepsTo {r : Request α} (isFor : r.IsFor name) : r.wait.KeepsTo name fun _ => True := by
  unfold Request.wait
  split
  · trivial
  · cases duty : r.duty with
    | done | failed => trivial
    | collect key number =>
      refine ⟨isFor key number duty, fun message => ?_⟩
      simp only [Program.bind]
      split <;> trivial

theorem waitEach_keepsTo {requests : List (Request α)} (isFor : ∀ r ∈ requests, r.IsFor name) :
    (waitEach requests).KeepsTo name fun _ => True := by
  induction requests with
  | nil => trivial
  | cons r rest ih =>
    obtain ⟨first, later⟩ := List.forall_mem_cons.mp isFor
    exact (Request.wait_keepsTo first).bind fun _ _ => (ih later).bind fun _ _ => trivial

end Requests

end Transport

/-- An exchange whose requests can only be for mail to this rank. -/
structure Exchange.IsFor {α : Type} (ex : Exchange α) (name : Int) : Prop where
  sends : ∀ r ∈ ex.sends, r.IsFor name
  receives : ∀ e ∈ ex.receives, e.request.IsFor name

namespace Mesh

variable {α : Type} [Scalar α] {name : Int} {ex : Exchange α} (m : Mesh α)

theorem postLegs_keepsTo (legs : List Leg) (isFor : ex.IsFor m.rank) :
    (m.postLegs legs ex).KeepsTo m.rank fun ex' => ex'.IsFor m.rank := by
  induction legs generalizing ex with
  | nil => exact isFor
  | cons leg rest ih =>
    rw [postLegs]
    split
    next => exact ih isFor
    next destination _ =>
      split
      · exact ih isFor
      · refine (Endpoint.send_keepsTo m.endpoint ..).bind fun sent own => ?_
        refine (Endpoint.receive_keepsTo m.endpoint ..).bind fun request own' => ih ⟨fun r member => ?_, fun e member => ?_⟩
        · rcases List.mem_append.mp member with member | member
          · exact isFor.sends r member
          · obtain rfl := List.mem_singleton.mp member
            exact own
        · rcases List.mem_append.mp member with member | member
          · exact isFor.receives e member
          · obtain rfl := List.mem_singleton.mp member
            exact own'

theorem complete_keepsTo (isFor : ex.IsFor name) :
    (m.complete ex).KeepsTo name fun result => ∀ ex', result = .ok ex' → ex'.IsFor name := by
  have requests : ∀ r ∈ ex.receives.map Expected.request, r.IsFor name := by
    intro r member
    obtain ⟨e, inside, rfl⟩ := List.mem_map.mp member
    exact isFor.receives e inside
  refine (waitEach_keepsTo requests).bind fun found _ => ?_
  obtain ⟨done, errors⟩ := found
  dsimp only
  split
  · exact fun _ failed => nomatch failed
  · rintro _ ⟨⟩
    exact ⟨isFor.sends, fun e none => nomatch none⟩

omit [Scalar α] in
theorem closing_keepsTo (isFor : ex.IsFor name) : (closing ex).KeepsTo name fun _ => True := by
  refine (waitEach_keepsTo isFor.sends).bind fun found _ => ?_
  obtain ⟨_, errors⟩ := found
  cases errors <;> trivial

theorem secondPhase_keepsTo (isFor : ex.IsFor m.rank) : (m.secondPhase ex).KeepsTo m.rank fun _ => True := by
  have phase : (if ex.xOnly || ex.staged.isEmpty then .finished (.ok ex)
      else (m.postLegs m.yLegs ex).bind m.complete).KeepsTo m.rank fun result =>
        ∀ ex', result = .ok ex' → ex'.IsFor m.rank := by
    split
    · exact fun ex' same => Except.ok.inj same ▸ isFor
    · exact (m.postLegs_keepsTo _ isFor).bind fun _ posted => m.complete_keepsTo posted
  refine phase.bind fun found posted => ?_
  cases found with
  | error e => trivial
  | ok ex' => exact closing_keepsTo (posted ex' rfl)

theorem finishExchange_keepsTo (isFor : ex.IsFor m.rank) : (m.finishExchange ex).KeepsTo m.rank fun _ => True := by
  rw [finishExchange_eq]
  refine (m.complete_keepsTo isFor).bind fun found own => ?_
  cases found with
  | error e => trivial
  | ok ex' => exact m.secondPhase_keepsTo (own ex' rfl)

theorem exchange_keepsTo (fields : List (Field α)) (xOnly : Bool) :
    (m.exchange fields xOnly).KeepsTo m.rank fun _ => True := by
  have start : (m.startExchange fields xOnly).KeepsTo m.rank fun result => ∀ ex, result = .ok ex → ex.IsFor m.rank := by
    unfold startExchange
    split
    · exact fun _ failed => nomatch failed
    · have nothing : (Exchange.mk fields xOnly [] []).IsFor m.rank := ⟨fun _ => (nomatch ·), fun _ => (nomatch ·)⟩
      refine (m.postLegs_keepsTo _ nothing).bind fun ex own => ?_
      exact fun ex' same => Except.ok.inj same ▸ own
  refine start.bind fun found own => ?_
  cases found with
  | error e => trivial
  | ok ex => exact m.finishExchange_keepsTo (own ex rfl)

end Mesh

namespace RankM

variable {α β γ : Type} {p : RankM α β}

/-- A rank keeps to its own mail and to its mesh. -/
def Discreet (p : RankM α β) : Prop := ∀ r, (p.run.run r).KeepsTo r.mesh.rank fun ended => ended.2.mesh = r.mesh

theorem Discreet.bind {next : β → RankM α γ} (first : Discreet p) (second : ∀ b, Discreet (next b)) :
    Discreet (p >>= next) := by
  intro r
  rw [run_bind]
  refine (first r).bind fun ended same => ?_
  obtain ⟨outcome, r'⟩ := ended
  cases outcome with
  | ok b => exact same ▸ second b r'
  | error e => exact same

theorem discreet_pure (b : β) : Discreet (pure b : RankM α β) := fun _ => rfl

theorem discreet_throw (e : Failure) : Discreet (throw e : RankM α β) := fun _ => rfl

theorem discreet_ofOutcome (outcome : Outcome β) : Discreet (ofOutcome outcome : RankM α β) := fun _ => rfl

theorem discreet_mesh : Discreet (mesh : RankM α (Mesh α)) := fun _ => rfl

theorem discreet_get : Discreet (get : RankM α (Rank α)) := fun _ => rfl

theorem discreet_modify {change : Rank α → Rank α} (same : ∀ r, (change r).mesh = r.mesh) :
    Discreet (modify change : RankM α Unit) := same

theorem discreet_warn (message : String) : Discreet (warn message : RankM α Unit) := discreet_modify fun _ => rfl

theorem discreet_foldlM {ι : Type} {step : β → ι → RankM α β} (each : ∀ b i, Discreet (step b i)) (items : List ι) (b : β) :
    Discreet (items.foldlM step b) := by
  induction items generalizing b with
  | nil => exact discreet_pure b
  | cons i rest ih => exact (each b i).bind ih

theorem discreet_ofFunctionM {make : Pair → RankM α β} (each : ∀ q, Discreet (make q)) :
    Discreet (Symmetric.ofFunctionM make) :=
  (each .p11).bind fun _ => (each .p22).bind fun _ => (each .p33).bind fun _ => (each .p12).bind fun _ =>
    (each .p13).bind fun _ => (each .p23).bind fun _ => discreet_pure _

theorem discreet_mapM {f : β → RankM α γ} (each : ∀ b, Discreet (f b)) (v : Vector3 β) : Discreet (v.mapM f) :=
  (each v.x).bind fun _ => (each v.y).bind fun _ => (each v.z).bind fun _ => discreet_pure _

theorem Discreet.mapError (discreet : Discreet p) (change : Failure → Failure) :
    Discreet (ExceptT.mk do return (← p.run).mapError change) := fun r => (discreet r).bind fun _ same => same

theorem Discreet.insist (discreet : Discreet p) : Discreet (insist p) := discreet.mapError _

theorem Discreet.labelled (discreet : Discreet p) (activity : Activity) : Discreet (labelled activity p) := discreet.mapError _

theorem discreet_tryTalk {talk : Mesh α → Program (Array α) (Except Error β)}
    (own : ∀ m, (talk m).KeepsTo m.rank fun _ => True) : Discreet (do tryTalk (talk (← mesh))) := by
  intro r
  rw [run_mesh_bind rfl]
  have talked : (RankM.talk (talk r.mesh)).run.run r =
      (talk r.mesh).bind fun answer => finished (Except.ok answer, r) := by
    change ((talk r.mesh).bind fun b => finished (b, r)).bind _ = _
    rw [bind_bind]
    rfl
  unfold tryTalk
  rw [run_bind, talked, bind_bind]
  exact (own r.mesh).bind fun _ _ => rfl

variable [Scalar α]

theorem discreet_exchanged (fields : List (Field α)) : Discreet (exchanged fields) :=
  discreet_tryTalk fun m => m.exchange_keepsTo fields false

/-! Making coordinates. -/

theorem discreet_gridField (name : String) (dflt : α) : Discreet (gridField name dflt) := by
  refine discreet_mesh.bind fun m => (discreet_ofOutcome _).bind fun found => ?_
  obtain ⟨f, _ | e⟩ := found
  · exact discreet_pure f
  · dsimp only
    split
    · exact discreet_pure f
    · exact discreet_throw _

theorem discreet_gridOrComputed (name warning : String) (computed : Field α) :
    Discreet (gridOrComputed name warning computed) := by
  refine discreet_mesh.bind fun m => (discreet_ofOutcome _).bind fun found => ?_
  obtain ⟨f, _ | e⟩ := found
  · dsimp only
    split
    · exact (discreet_warn _).bind fun _ => discreet_pure f
    · exact discreet_pure f
  · dsimp only
    split
    · exact discreet_pure computed
    · exact discreet_throw _

theorem discreet_readMetric : Discreet (readMetric : RankM α (Coordinates α)) := by
  refine discreet_mesh.bind fun _ => (discreet_gridField _ _).bind fun _ => (discreet_gridField _ _).bind fun _ => ?_
  refine (discreet_ofFunctionM fun _ => discreet_gridField _ _).bind fun _ => ?_
  refine (discreet_gridField _ _).bind fun _ => (discreet_gridField _ _).bind fun _ => ?_
  refine (discreet_ofOutcome _).bind fun _ => (discreet_gridOrComputed _ _ _).bind fun _ => ?_
  refine (discreet_ofOutcome _).bind fun _ => ?_
  exact (discreet_gridOrComputed _ _ _).bind fun _ => discreet_pure _

theorem discreet_moved (f : Field α) (loc : Location) : Discreet (moved f loc) := discreet_ofOutcome _

theorem discreet_movedMetric (centre : Coordinates α) (loc : Location) : Discreet (movedMetric centre loc) := by
  refine (discreet_moved _ loc).bind fun _ => (discreet_moved _ loc).bind fun _ => ?_
  refine (discreet_ofFunctionM fun _ => discreet_moved _ loc).bind fun _ => (discreet_moved _ loc).bind fun _ => ?_
  refine (discreet_moved _ loc).bind fun _ => (discreet_moved _ loc).bind fun _ => (discreet_moved _ loc).bind fun _ => ?_
  exact (discreet_ofOutcome _).labelled _

theorem discreet_exchangedQuantities (qs : List Quantity) (c : Coordinates α) : Discreet (exchangedQuantities qs c) :=
  (discreet_exchanged _).bind fun _ => discreet_pure _

theorem discreet_computeGeometry (c : Coordinates α) : Discreet (computeGeometry (fun _ => pure ()) c) := by
  refine discreet_mesh.bind fun _ => ((discreet_exchangedQuantities _ c).labelled _).bind fun _ => ?_
  refine (discreet_pure _).bind fun _ => (discreet_ofOutcome _).bind fun _ => (discreet_ofOutcome _).bind fun _ => ?_
  refine (discreet_pure _).bind fun _ => ((discreet_exchangedQuantities _ _).labelled _).bind fun _ => ?_
  exact (discreet_pure _).bind fun _ => discreet_pure _

theorem discreet_makeCentre : Discreet (makeCentre : RankM α (Coordinates α)) :=
  discreet_readMetric.bind fun c => (discreet_computeGeometry c).labelled _

omit [Scalar α] in
theorem discreet_keepCoordinates (c : Coordinates α) : Discreet (keepCoordinates c) := discreet_modify fun _ => rfl

omit [Scalar α] in
theorem discreet_knownCoordinates? (loc : Location) : Discreet (knownCoordinates? loc : RankM α (Option (Coordinates α))) :=
  discreet_get.bind fun _ => discreet_pure _

omit [Scalar α] in
theorem Discreet.onFirstUse {make : RankM α (Coordinates α)} (discreet : Discreet make) (known : Option (Coordinates α)) :
    Discreet (match known with
      | some c => pure c
      | none => do
        let c ← make
        keepCoordinates c
        return c) := by
  cases known with
  | some c => exact discreet_pure c
  | none => exact discreet.bind fun c => (discreet_keepCoordinates c).bind fun _ => discreet_pure c

theorem discreet_makeCoordinates (place : Placement) : Discreet (makeCoordinates place : RankM α (Coordinates α)) := by
  have centre : Discreet (centreCoordinates : RankM α (Coordinates α)) :=
    (discreet_knownCoordinates? _).bind fun known => discreet_makeCentre.onFirstUse known
  unfold makeCoordinates
  split
  · exact discreet_makeCentre
  · refine centre.insist.bind fun _ => (discreet_movedMetric _ _).bind fun _ => ?_
    exact (discreet_computeGeometry _).labelled _
  · exact discreet_throw _

theorem discreet_coordinatesAt (place : Placement) : Discreet (coordinatesAt place : RankM α (Coordinates α)) := by
  unfold coordinatesAt loadCoordinates
  refine Discreet.insist ?_
  dsimp only
  split
  · exact (discreet_knownCoordinates? _).bind (discreet_makeCoordinates place).onFirstUse
  · exact (discreet_pure none).bind (discreet_makeCoordinates place).onFirstUse

/-! Operators. -/

theorem discreet_parallelTransform : Discreet (parallelTransform : RankM α (ParallelTransform α)) := by
  have kept (t : ParallelTransform α) : Discreet (do
      modify fun r : Rank α => { r with transform := some t }
      return t) := Discreet.bind (discreet_modify fun _ => rfl) fun _ => discreet_pure t
  unfold parallelTransform
  refine discreet_get.bind fun r => ?_
  split
  · exact discreet_pure _
  · split
    · refine (discreet_ofOutcome _).bind fun found => ?_
      obtain ⟨zShift, missing⟩ := found
      have made : Discreet (do
          let metric ← ofOutcome (ShiftedMetric.make zShift r.mesh.zLength)
          let t ← pure (ParallelTransform.shifted metric)
          modify fun r : Rank α => { r with transform := some t }
          return t) := (discreet_ofOutcome _).bind fun _ => (discreet_pure _).bind kept
      dsimp only
      split
      · split
        · exact (discreet_throw _).bind fun _ => (discreet_warn _).bind fun _ => made
        · exact (discreet_warn _).bind fun _ => made
      · exact made
    · exact (discreet_pure _).bind kept

theorem discreet_toAligned (f : Field α) : Discreet (toAligned f) :=
  discreet_parallelTransform.bind fun _ => discreet_ofOutcome _

theorem discreet_fromAligned (f : Field α) : Discreet (fromAligned f) :=
  discreet_parallelTransform.bind fun _ => discreet_ofOutcome _

theorem discreet_scaled (axis : Axis) (order : Nat) (f : Field α) : Discreet (scaled axis order f) := by
  refine (discreet_coordinatesAt _).bind fun c => ?_
  cases axis with
  | x | y => exact discreet_ofOutcome _
  | z => exact discreet_pure _

theorem discreet_derivative (axis : Axis) (kind : Kind) (f : Field α) (s : Scheme) :
    Discreet (derivative axis kind f s) := by
  refine discreet_mesh.bind fun m => ?_
  dsimp only
  split
  · refine (discreet_toAligned f).bind fun _ => (discreet_ofOutcome _).bind fun _ => ?_
    exact (discreet_fromAligned _).bind fun _ => discreet_scaled _ _ _
  · exact (discreet_ofOutcome _).bind fun _ => discreet_scaled _ _ _

theorem discreet_flow (axis : Axis) (kind : Kind) (v f : Field α) (s : Scheme) : Discreet (flow axis kind v f s) := by
  refine discreet_mesh.bind fun m => ?_
  dsimp only
  split
  · refine (discreet_toAligned v).bind fun _ => (discreet_toAligned f).bind fun _ => (discreet_ofOutcome _).bind fun _ => ?_
    exact (discreet_fromAligned _).bind fun _ => discreet_scaled _ _ _
  · exact (discreet_ofOutcome _).bind fun _ => discreet_scaled _ _ _

theorem discreet_convertComponent (c : Coordinates α) (metric : Coordinates α → Axis → Axis → Field α) (v : Vector3 (Field α))
    (i : Axis) : Discreet (convertComponent c metric v i) := by
  have products (c : Coordinates α) : Discreet (do
      let data ← Axis.all.foldlM (fun data j => do
        let vj ← moved (v.component j) (v.component i).loc
        ofOutcome (addProducts data (metric c i j).data vj.data)) (v.component i).zeroLike.data
      ofOutcome ((v.component i).withData data)) := by
    refine (discreet_foldlM (fun data j => ?_) _ _).bind fun _ => discreet_ofOutcome _
    exact (discreet_moved _ _).bind fun _ => discreet_ofOutcome _
  unfold convertComponent
  dsimp only
  split
  · exact (discreet_pure c).bind products
  · exact (discreet_coordinatesAt _).bind products

theorem discreet_convert (c : Coordinates α) (metric : Coordinates α → Axis → Axis → Field α) (v : Vector3 (Field α))
    (covariant : Bool) : Discreet (convert c metric v covariant) := by
  have each := discreet_convertComponent c metric v
  exact (each .x).bind fun _ => (each .y).bind fun _ => (each .z).bind fun _ => discreet_pure _

theorem discreet_toContravariant (c : Coordinates α) (v : Vector3 (Field α)) : Discreet (toContravariant c v) := by
  unfold toContravariant
  split
  · exact discreet_convert c _ v _
  · exact discreet_pure v

theorem discreet_toCovariant (c : Coordinates α) (v : Vector3 (Field α)) : Discreet (toCovariant c v) := by
  unfold toCovariant
  split
  · exact discreet_pure v
  · exact discreet_convert c _ v _

theorem discreet_raised (v : Vector3 (Field α)) : Discreet (raised v) :=
  (discreet_coordinatesAt _).bind fun c => discreet_toContravariant c v

theorem discreet_density (v : Vector3 (Field α)) : Discreet (density v) :=
  (discreet_raised v).bind (discreet_mapM fun _ => (discreet_coordinatesAt _).bind fun _ => discreet_ofOutcome _)

theorem discreet_overJacobian (f : Field α) (place : Placement) : Discreet (overJacobian f place) :=
  (discreet_coordinatesAt place).bind fun _ => discreet_ofOutcome _

theorem discreet_divergence (v : Vector3 (Field α)) (place : Placement) : Discreet (divergence v place) := by
  have along (axis : Axis) (f : Field α) : Discreet (alongAt axis f (place.orElse .centre)) :=
    discreet_derivative axis _ f _
  refine (discreet_density v).bind fun d => (along .x d.x).bind fun x => (along .y d.y).bind fun y => ?_
  refine (discreet_ofOutcome _).bind fun xy => (along .z d.z).bind fun z => ?_
  exact (discreet_ofOutcome _).bind fun sum => discreet_overJacobian sum _

theorem discreet_fluxDivergence (v : Vector3 (Field α)) (f : Field α) (s : Scheme) : Discreet (fluxDivergence v f s) := by
  refine (discreet_density v).bind fun d => (discreet_flow .x _ d.x f _).bind fun x => ?_
  refine (discreet_flow .y _ d.y f _).bind fun y => (discreet_ofOutcome _).bind fun xy => ?_
  refine (discreet_flow .z _ d.z f _).bind fun z => ?_
  exact (discreet_ofOutcome _).bind fun sum => discreet_overJacobian sum _

theorem discreet_curlComponent (axis : Axis) (f : Field α) (axis' : Axis) (g : Field α) (place : Placement) :
    Discreet (curlComponent axis f axis' g place) := by
  refine (discreet_derivative _ _ _ _).bind fun a => (discreet_derivative _ _ _ _).bind fun b => ?_
  exact (discreet_ofOutcome _).bind fun difference => discreet_overJacobian difference _

theorem discreet_curlAt (v : Vector3 (Field α)) (px py pz : Placement) : Discreet (curlAt v px py pz) := by
  refine (discreet_coordinatesAt _).bind fun c => (discreet_toCovariant c v).bind fun lowered => ?_
  refine (discreet_ofOutcome _).bind fun place => ?_
  dsimp only
  refine (discreet_curlComponent _ _ _ _ _).bind fun x => (discreet_curlComponent _ _ _ _ _).bind fun y => ?_
  refine (discreet_curlComponent _ _ _ _ _).bind fun z => discreet_mesh.bind fun m => ?_
  split
  · exact (discreet_coordinatesAt _).bind fun c => (discreet_ofOutcome _).bind fun vz => discreet_pure _
  · exact discreet_pure _

theorem discreet_curl (v : Vector3 (Field α)) (place : Placement) : Discreet (curl v place) := by
  unfold curl
  dsimp only
  split
  · exact (discreet_ofOutcome _).bind fun place => discreet_curlAt v _ _ _
  · exact (discreet_pure _).bind fun place => discreet_curlAt v _ _ _

theorem discreet_advecting (v f : Field α) (axis : Axis) : Discreet (advecting v f axis) := by
  refine discreet_mesh.bind fun m => ?_
  split
  · exact discreet_pure v
  · exact discreet_moved v _

theorem discreet_advectBy (v : Vector3 (Field α)) (f : Field α) (s : Scheme) : Discreet (advectBy v f s) := by
  refine (discreet_advecting v.x f .x).bind fun _ => (discreet_flow _ _ _ f s).bind fun x => ?_
  refine (discreet_advecting v.y f .y).bind fun _ => (discreet_flow _ _ _ f s).bind fun y => ?_
  refine (discreet_ofOutcome _).bind fun xy => (discreet_advecting v.z f .z).bind fun _ => ?_
  exact (discreet_flow _ _ _ f s).bind fun z => discreet_ofOutcome _

theorem discreet_advect (v : Vector3 (Field α)) (f : Field α) (s : Scheme) : Discreet (advect v f s) :=
  (discreet_raised v).bind fun w => discreet_advectBy w f s

theorem discreet_advectComponent (v a : Vector3 (Field α)) (s : Scheme) (i : Axis) : Discreet (advectComponent v a s i) := by
  refine (discreet_coordinatesAt _).bind fun c => (discreet_advectBy v _ s).bind fun r => discreet_foldlM (fun _ j => ?_) _ _
  refine (discreet_moved _ _).bind fun vj => discreet_foldlM (fun _ k => ?_) _ _
  exact (discreet_moved _ _).bind fun ak => discreet_ofOutcome _

theorem discreet_advectVector (v a : Vector3 (Field α)) (s : Scheme) : Discreet (advectVector v a s) := by
  refine (discreet_raised v).bind fun w => (discreet_advectComponent w a s _).bind fun _ => ?_
  exact (discreet_advectComponent w a s _).bind fun _ => (discreet_advectComponent w a s _).bind fun _ => discreet_pure _

end RankM

/-- In a world of discreet computations all ranks keep to their own mail. -/
theorem together_ownMail {α β : Type} {l : Layout α} {meshes : Nat → Mesh α} {ranks : Nat → Rank α} {p : Nat → RankM α β}
    (given : ∀ i < l.count, l.Assigns i (meshes i)) (own : ∀ i < l.count, (ranks i).mesh = meshes i)
    (discreet : ∀ i < l.count, (p i).Discreet) : (together l.count ranks p).view.OwnMail := by
  refine ⟨fun i program found => ?_, fun key entry member => nomatch member⟩
  obtain ⟨inside, rfl⟩ := List.getElem?_eq_some_iff.mp found
  have within : i < l.count := by simpa [together, Situation.view] using inside
  have named : (ranks i).mesh.rank = i := by
    rw [own i within]
    exact congrArg Endpoint.rank (Layout.rank_eq (given i within))
  simpa [together, Situation.view, named] using (discreet i within (ranks i)).mono fun _ _ => trivial

end HaloMesh
