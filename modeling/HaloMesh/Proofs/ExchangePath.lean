import HaloMesh.Mesh.Exchange
import HaloMesh.Proofs.ProgramPath

/-! The requests that an exchange makes of the mail. In each phase a rank posts to every rank across a side
and claims the message from there, and then receives what it has claimed. -/

namespace HaloMesh
open Transport Program

variable {α : Type}

/-- A side of an exchange that was posted: its leg, the rank across, and the number of the message that
was claimed from there. -/
structure Posted where
  leg : Leg
  neighbour : Int
  number : Nat

namespace Posted

def sendKey (rank : Int) (t : Posted) : MailKey := ⟨rank, t.neighbour, t.leg.sendTag.number⟩

def receiveKey (rank : Int) (t : Posted) : MailKey := ⟨t.neighbour, rank, t.leg.receiveTag.number⟩

def events (rank : Int) (staged : List (Field α)) (t : Posted) : List (Event (Array α)) :=
  [.post (t.sendKey rank) (t.leg.source.pack staged), .claim (t.receiveKey rank) t.number]

variable [Scalar α]

def request (rank : Int) (staged : List (Field α)) (t : Posted) : Request α :=
  { duty := .collect (t.receiveKey rank) t.number, buffer := Array.replicate (t.leg.target.size staged) 0 }

def expected (rank : Int) (staged : List (Field α)) (t : Posted) : Expected α :=
  { request := t.request rank staged, target := t.leg.target, turn := t.leg.turn }

end Posted

/-- The legs that have a rank across and something to send there. -/
def talking (legs : List Leg) : List (Leg × Int) :=
  legs.filterMap fun leg => if leg.source.isEmpty then none else leg.destination.map fun d => (leg, d)

def settled : Request α := { duty := .done }

namespace Mesh

variable {m : Mesh α} {legs : List Leg} {events : List (Event (Array α))}

def Reaches (m : Mesh α) (legs : List Leg) : Prop :=
  ∀ leg ∈ legs, ∀ d, leg.destination = some d → m.endpoint.reaches d = true

variable [Scalar α]

/-- Posting goes through the legs in order. -/
theorem postLegs_path (reaches : m.Reaches legs) (ex ex' : Exchange α) :
    Path (m.postLegs legs ex) events (.finished ex') ↔ ∃ posted : List Posted,
      posted.map (fun t => (t.leg, t.neighbour)) = talking legs ∧
        events = posted.flatMap (Posted.events m.rank ex.staged) ∧
        ex' = { ex with
          sends := ex.sends ++ List.replicate posted.length settled
          receives := ex.receives ++ posted.map (Posted.expected m.rank ex.staged) } := by
  induction legs generalizing ex events with
  | nil =>
    constructor
    · intro path
      obtain ⟨rfl, rfl⟩ := path.finished_eq
      exact ⟨[], rfl, rfl, by simp⟩
    · intro holds
      obtain ⟨posted, none, rfl, rfl⟩ := holds
      obtain rfl : posted = [] := by simpa [talking] using none
      simp only [List.map_nil, List.length_nil, List.replicate_zero, List.append_nil]
      exact .here _
  | cons leg rest ih =>
    have others : m.Reaches rest := fun other member => reaches other (List.mem_cons_of_mem _ member)
    by_cases silent : leg.destination = none ∨ leg.source.isEmpty = true
    · have skip : m.postLegs (leg :: rest) ex = m.postLegs rest ex := by
        rw [postLegs]
        split
        · rfl
        next found => simp [silent.resolve_left (by simp [found])]
      have same : talking (leg :: rest) = talking rest := by
        rcases silent with nobody | nothing
        · simp [talking, nobody]
        · simp [talking, nothing]
      rw [skip, same]
      exact ih others ex
    · obtain ⟨someone, something⟩ := not_or.mp silent
      obtain ⟨d, across⟩ := Option.ne_none_iff_exists'.mp someone
      have reached := reaches leg List.mem_cons_self d across
      have asks : m.postLegs (leg :: rest) ex =
          .post (Posted.sendKey m.rank ⟨leg, d, 0⟩) (leg.source.pack ex.staged)
            (.claim (Posted.receiveKey m.rank ⟨leg, d, 0⟩) fun number => m.postLegs rest
              { ex with
                sends := ex.sends ++ [settled]
                receives := ex.receives ++ [Posted.expected m.rank ex.staged ⟨leg, d, number⟩] }) := by
        rw [postLegs, across]
        simp only [something, Bool.false_eq_true, ↓reduceIte, Endpoint.send, Endpoint.receive, reached]
        rfl
      have more : talking (leg :: rest) = (leg, d) :: talking rest := by simp [talking, across, something]
      rw [asks, more]
      constructor
      · intro path
        cases path with
        | post path =>
          cases path with
          | claim number path =>
            obtain ⟨posted, sides, rfl, rfl⟩ := (ih others _).mp path
            exact ⟨⟨leg, d, number⟩ :: posted, by simp [sides], rfl, by simp [List.replicate_succ]⟩
      · intro holds
        obtain ⟨posted, sides, rfl, rfl⟩ := holds
        obtain ⟨t, later, rfl, first, rest⟩ := List.map_eq_cons_iff.mp sides
        obtain ⟨rfl, rfl⟩ := Prod.mk.inj first
        refine .post (.claim t.number ((ih others _).mpr ⟨later, rest, rfl, ?_⟩))
        simp [List.replicate_succ]

/-! Waiting for what was claimed. -/

abbrev Heard (α : Type) := Posted × Array α

theorem wait_eq (rank : Int) (staged : List (Field α)) (t : Posted) : (t.request rank staged).wait =
    .receive (t.receiveKey rank) t.number fun answer => match answer with
      | none => .pending t.neighbour rank fun tags => .finished
          ({ t.request rank staged with consumed := true },
            some (.timeout rank t.leg.receiveTag.number t.neighbour tags))
      | some message =>
        if message.size = (t.request rank staged).buffer.size
        then .finished ({ t.request rank staged with consumed := true, buffer := message }, none)
        else .finished ({ t.request rank staged with consumed := true }, some (.sizeMismatch rank
          t.leg.receiveTag.number t.neighbour (t.request rank staged).buffer.size message.size)) := by
  simp only [Request.wait, Posted.request, Bool.false_eq_true, ↓reduceIte]
  refine congrArg _ (funext fun answer => ?_)
  cases answer <;> rfl

/-- Waiting for a claimed message succeeds if it comes in the expected length. -/
theorem wait_path (rank : Int) (staged : List (Field α)) (t : Posted) (r : Request α) :
    Path (t.request rank staged).wait events (.finished (r, none)) ↔ ∃ message : Array α,
      message.size = t.leg.target.size staged ∧ events = [.receive (t.receiveKey rank) t.number (some message)] ∧
        r = { t.request rank staged with consumed := true, buffer := message } := by
  have size : (t.request rank staged).buffer.size = t.leg.target.size staged := Array.size_replicate
  rw [wait_eq, size]
  constructor
  · intro path
    cases path with
    | receive answer path =>
      cases answer with
      | none =>
        cases path with
        | pending tags path => cases path.finished_eq.2
      | some message =>
        dsimp only at path
        split at path
        next fits =>
          obtain ⟨rfl, same⟩ := path.finished_eq
          exact ⟨message, fits, rfl, (Prod.mk.inj same).1.symm⟩
        next => cases path.finished_eq.2
  · intro holds
    obtain ⟨message, fits, rfl, rfl⟩ := holds
    refine .receive (some message) ?_
    dsimp only
    rw [if_pos fits]
    exact .here _

omit [Scalar α] in
theorem waitEach_cons_path (r : Request α) (rest done : List (Request α)) :
    Path (waitEach (r :: rest)) events (.finished (done, [])) ↔ ∃ first second r' done',
      events = first ++ second ∧ Path r.wait first (.finished (r', none)) ∧
        Path (waitEach rest) second (.finished (done', [])) ∧ done = r' :: done' := by
  constructor
  · intro path
    obtain ⟨first, tail, ⟨r', e⟩, rfl, waited, path⟩ := path.of_bind_finished
    obtain ⟨second, last, ⟨done', errors⟩, rfl, later, path⟩ := path.of_bind_finished
    obtain ⟨rfl, same⟩ := path.finished_eq
    obtain ⟨rfl, empty⟩ := Prod.mk.inj same
    obtain ⟨missing, rfl⟩ := List.append_eq_nil_iff.mp empty
    obtain rfl := Option.toList_eq_nil_iff.mp missing
    exact ⟨first, second, r', done', by simp, waited, later, rfl⟩
  · intro holds
    obtain ⟨first, second, r', done', rfl, waited, later, rfl⟩ := holds
    refine waited.bind_finished ?_
    rw [← List.append_nil second]
    exact later.bind_finished (.here _)

theorem waitEach_path (rank : Int) (staged : List (Field α)) (posted : List Posted) (done : List (Request α)) :
    Path (waitEach (posted.map (Posted.request rank staged))) events (.finished (done, [])) ↔
      ∃ heard : List (Heard α), heard.map Prod.fst = posted ∧
        (∀ h ∈ heard, h.2.size = h.1.leg.target.size staged) ∧
        events = heard.map (fun h => .receive (h.1.receiveKey rank) h.1.number (some h.2)) ∧
        done = heard.map fun h => { h.1.request rank staged with consumed := true, buffer := h.2 } := by
  induction posted generalizing events done with
  | nil =>
    constructor
    · intro path
      obtain ⟨rfl, same⟩ := path.finished_eq
      obtain rfl : [] = done := (Prod.mk.inj same).1
      exact ⟨[], rfl, by simp, rfl, rfl⟩
    · intro holds
      obtain ⟨heard, none, -, rfl, rfl⟩ := holds
      obtain rfl : heard = [] := by simpa using none
      exact .here _
  | cons t rest ih =>
    rw [List.map_cons, waitEach_cons_path]
    constructor
    · intro holds
      obtain ⟨first, second, r', done', rfl, waited, later, rfl⟩ := holds
      obtain ⟨message, fits, rfl, rfl⟩ := (wait_path rank staged t r').mp waited
      obtain ⟨heard, rfl, sizes, rfl, rfl⟩ := (ih done').mp later
      refine ⟨(t, message) :: heard, rfl, ?_, rfl, rfl⟩
      intro h member
      rcases List.mem_cons.mp member with rfl | among
      · exact fits
      · exact sizes h among
    · intro holds
      obtain ⟨heard, sides, sizes, rfl, rfl⟩ := holds
      obtain ⟨h, later, rfl, rfl, rfl⟩ := List.map_eq_cons_iff.mp sides
      refine ⟨[_], _, _, _, rfl, (wait_path rank staged h.1 _).mpr ⟨h.2, sizes h List.mem_cons_self, rfl, rfl⟩,
        (ih _).mpr ⟨later, rfl, fun g among => sizes g (List.mem_cons_of_mem _ among), rfl, rfl⟩, rfl⟩

omit [Scalar α] in
theorem waitEach_settled (count : Nat) : waitEach (List.replicate count (settled : Request α)) =
    .finished (List.replicate count { (settled : Request α) with consumed := true }, []) := by
  induction count with
  | zero => rfl
  | succ count ih =>
    rw [List.replicate_succ, waitEach, ih]
    rfl

/-! The phases of an exchange. -/

/-- What was heard in one phase: a message of the expected length on every side that was posted. -/
structure HeardAll (legs : List Leg) (staged : List (Field α)) (heard : List (Heard α)) : Prop where
  sides : (heard.map Prod.fst).map (fun t => (t.leg, t.neighbour)) = talking legs
  sizes : ∀ h ∈ heard, h.2.size = h.1.leg.target.size staged

def phaseEvents (rank : Int) (staged : List (Field α)) (heard : List (Heard α)) : List (Event (Array α)) :=
  heard.flatMap (fun h => h.1.events rank staged) ++
    heard.map fun h => .receive (h.1.receiveKey rank) h.1.number (some h.2)

def arrived (rank : Int) (staged : List (Field α)) (h : Heard α) : Expected α :=
  { h.1.expected rank staged with
    request := { h.1.request rank staged with consumed := true, buffer := h.2 } }

def afterPhase (m : Mesh α) (staged : List (Field α)) (heard : List (Heard α)) : List (Field α) :=
  m.place staged (heard.map (arrived m.rank staged))

/-- The receives of a phase under way. -/
def Underway (m : Mesh α) (ex : Exchange α) (posted : List Posted) : Prop :=
  ex.receives = posted.map (Posted.expected m.rank ex.staged)

def receiveEvents (rank : Int) (heard : List (Heard α)) : List (Event (Array α)) :=
  heard.map fun h => .receive (h.1.receiveKey rank) h.1.number (some h.2)

omit [Scalar α] in
theorem phaseEvents_split (rank : Int) (staged : List (Field α)) (heard : List (Heard α)) : phaseEvents rank staged heard =
    (heard.map Prod.fst).flatMap (Posted.events rank staged) ++ receiveEvents rank heard := by
  rw [phaseEvents, List.flatMap_map]
  rfl

theorem join?_eq_none {errors : List Error} : Error.join? errors = none ↔ errors = [] := by
  cases errors with
  | nil => simp [Error.join?]
  | cons e rest => cases joined : Error.join? rest <;> simp [Error.join?, joined]

theorem arrived_eq {ex : Exchange α} {posted : List Posted} (underway : m.Underway ex posted) (heard : List (Heard α))
    (sides : heard.map Prod.fst = posted) : (ex.receives.zip (heard.map fun h =>
        { h.1.request m.rank ex.staged with consumed := true, buffer := h.2 })).map (fun (e, request) => { e with request }) =
      heard.map (arrived m.rank ex.staged) := by
  rw [underway, ← sides, List.map_map, List.zip_map', List.map_map]
  rfl

theorem complete_eq {ex : Exchange α} {posted : List Posted} (underway : m.Underway ex posted) : m.complete ex =
    (waitEach (posted.map (Posted.request m.rank ex.staged))).bind fun found => match Error.join? found.2 with
      | some e => .finished (.error (.within (.exchangeOnRank m.rank) e))
      | none => .finished (.ok
        { ex with
          staged := m.place ex.staged ((ex.receives.zip found.1).map fun (e, request) => { e with request })
          receives := [] }) := by
  have requests : ex.receives.map Expected.request = posted.map (Posted.request m.rank ex.staged) := by
    rw [underway, List.map_map]
    rfl
  rw [← requests]
  refine congrArg (Program.bind _) (funext fun found => ?_)
  obtain ⟨done, errors⟩ := found
  dsimp only
  cases Error.join? errors <;> rfl

/-- Completing a phase succeeds if every message comes in the expected length. -/
theorem complete_path {ex : Exchange α} (posted : List Posted) (underway : m.Underway ex posted) (ex' : Exchange α) :
    Path (m.complete ex) events (.finished (.ok ex')) ↔ ∃ heard : List (Heard α), heard.map Prod.fst = posted ∧
      (∀ h ∈ heard, h.2.size = h.1.leg.target.size ex.staged) ∧ events = receiveEvents m.rank heard ∧
      ex' = { ex with staged := m.afterPhase ex.staged heard, receives := [] } := by
  rw [complete_eq underway]
  constructor
  · intro path
    obtain ⟨first, second, ⟨done, errors⟩, rfl, waited, path⟩ := path.of_bind_finished
    cases joined : Error.join? errors with
    | some e =>
      simp only [joined] at path
      cases path.finished_eq.2
    | none =>
      obtain rfl := join?_eq_none.mp joined
      obtain ⟨heard, sides, sizes, rfl, rfl⟩ := (waitEach_path ..).mp waited
      obtain ⟨rfl, same⟩ := path.finished_eq
      refine ⟨heard, sides, sizes, by rw [List.append_nil]; rfl, ?_⟩
      rw [arrived_eq underway heard sides] at same
      exact (Except.ok.inj same).symm
  · intro holds
    obtain ⟨heard, sides, sizes, rfl, rfl⟩ := holds
    rw [← List.append_nil (receiveEvents m.rank heard)]
    refine ((waitEach_path ..).mpr ⟨heard, sides, sizes, rfl, rfl⟩).bind_finished ?_
    simp only [Error.join?, arrived_eq underway heard sides]
    exact .here _

theorem startExchange_path (reaches : m.Reaches m.xLegs) (fields : List (Field α)) (xOnly : Bool) (ex : Exchange α) :
    Path (m.startExchange fields xOnly) events (.finished (.ok ex)) ↔
      (∀ f ∈ fields, f.extents = m.extents) ∧ ∃ posted : List Posted,
        posted.map (fun t => (t.leg, t.neighbour)) = talking m.xLegs ∧
          events = posted.flatMap (Posted.events m.rank fields) ∧
          ex = { staged := fields, xOnly
                 sends := List.replicate posted.length settled
                 receives := posted.map (Posted.expected m.rank fields) } := by
  unfold startExchange
  split
  next f found =>
    have member := List.mem_of_find?_eq_some found
    have differs := List.find?_some found
    simp only [ne_eq, decide_not, Bool.not_eq_eq_eq_not, Bool.not_true, decide_eq_false_iff_not] at differs
    constructor
    · intro path
      cases path.finished_eq.2
    · intro holds
      obtain ⟨same, -⟩ := holds
      exact absurd (same f member) differs
  next missing =>
    have same : ∀ f ∈ fields, f.extents = m.extents := by
      intro f member
      simpa using List.find?_eq_none.mp missing f member
    rw [and_iff_right same]
    constructor
    · intro path
      obtain ⟨first, second, found, rfl, posts, path⟩ := path.of_bind_finished
      obtain ⟨rfl, equal⟩ := path.finished_eq
      obtain rfl := Except.ok.inj equal
      obtain ⟨posted, sides, rfl, rfl⟩ := (postLegs_path reaches _ _).mp posts
      exact ⟨posted, sides, by simp, by simp⟩
    · intro holds
      obtain ⟨posted, sides, rfl, rfl⟩ := holds
      rw [← List.append_nil (posted.flatMap _)]
      refine ((postLegs_path reaches _ _).mpr ⟨posted, sides, rfl, ?_⟩).bind_finished (.here _)
      simp

/-- A phase that has not begun yet: its legs are posted, and then what they claim is received. -/
theorem phase_path (reaches : m.Reaches legs) (ex ex' : Exchange α) (idle : ex.receives = []) :
    Path ((m.postLegs legs ex).bind m.complete) events (.finished (.ok ex')) ↔
      ∃ heard : List (Heard α), HeardAll legs ex.staged heard ∧ events = phaseEvents m.rank ex.staged heard ∧
        ex' = { ex with
          staged := m.afterPhase ex.staged heard
          sends := ex.sends ++ List.replicate heard.length settled } := by
  constructor
  · intro path
    obtain ⟨first, second, middle, rfl, posts, path⟩ := path.of_bind_finished
    obtain ⟨posted, sides, rfl, rfl⟩ := (postLegs_path reaches _ _).mp posts
    obtain ⟨heard, rfl, sizes, rfl, rfl⟩ := (complete_path posted (by simp [Underway, idle]) _).mp path
    exact ⟨heard, ⟨sides, sizes⟩, (phaseEvents_split ..).symm, by simp [idle]⟩
  · intro holds
    obtain ⟨heard, ⟨sides, sizes⟩, rfl, rfl⟩ := holds
    rw [phaseEvents_split]
    refine ((postLegs_path reaches ex _).mpr ⟨heard.map Prod.fst, sides, rfl, rfl⟩).bind_finished ?_
    refine (complete_path (heard.map Prod.fst) (by simp [Underway, idle]) _).mpr ⟨heard, rfl, sizes, rfl, ?_⟩
    simp [idle]

def closing (ex : Exchange α) : Program (Array α) (Except Error (List (Field α))) := do
  let (_, errors) ← waitEach ex.sends
  match errors with
  | e :: _ => return .error (.within .exchange e)
  | [] => return .ok ex.staged

omit [Scalar α] in
theorem closing_settled {ex : Exchange α} {count : Nat} (sent : ex.sends = List.replicate count settled) :
    closing ex = .finished (.ok ex.staged) := by
  rw [closing, sent, waitEach_settled]
  rfl

def secondPhase (m : Mesh α) (ex : Exchange α) : Program (Array α) (Except Error (List (Field α))) :=
  (if ex.xOnly || ex.staged.isEmpty then .finished (.ok ex) else (m.postLegs m.yLegs ex).bind m.complete).bind
    fun second => match second with
      | .error e => .finished (.error e)
      | .ok ex => closing ex

theorem finishExchange_eq (m : Mesh α) (ex : Exchange α) :
    m.finishExchange ex = (m.complete ex).bind fun first => match first with
      | .error e => .finished (.error e)
      | .ok ex => m.secondPhase ex := by
  refine congrArg (Program.bind _) (funext fun first => ?_)
  cases first with
  | error e => rfl
  | ok ex =>
    simp only [secondPhase]
    split
    · rfl
    · rw [Program.bind_bind]
      rfl

theorem secondPhase_path (reaches : m.Reaches m.yLegs) {staged result : List (Field α)} {xOnly : Bool} {count : Nat} :
    Path (m.secondPhase { staged, xOnly, sends := List.replicate count settled, receives := [] }) events
      (.finished (.ok result)) ↔ ((xOnly = true ∨ staged = []) ∧ events = [] ∧ result = staged) ∨
        (xOnly = false ∧ staged ≠ [] ∧ ∃ heard : List (Heard α), HeardAll m.yLegs staged heard ∧
          events = phaseEvents m.rank staged heard ∧ result = m.afterPhase staged heard) := by
  by_cases done : xOnly = true ∨ staged = []
  · have ends : m.secondPhase { staged, xOnly, sends := List.replicate count settled, receives := [] } =
        .finished (.ok staged) := by
      have skipped : (xOnly || staged.isEmpty) = true := by simpa using done
      rw [secondPhase, if_pos skipped]
      exact closing_settled rfl
    rw [ends]
    constructor
    · intro path
      obtain ⟨rfl, same⟩ := path.finished_eq
      exact .inl ⟨done, rfl, (Except.ok.inj same).symm⟩
    · rintro (⟨-, rfl, rfl⟩ | ⟨wanted, nonempty, -⟩)
      · exact .here _
      · rcases done with rfl | empty
        · cases wanted
        · exact absurd empty nonempty
  · obtain ⟨wanted, nonempty⟩ := not_or.mp done
    obtain rfl := eq_false_of_ne_true wanted
    have some_ : staged.isEmpty = false := by simpa using nonempty
    simp only [secondPhase, some_, Bool.false_or, Bool.false_eq_true, ↓reduceIte, nonempty, or_self, false_and, false_or,
      ne_eq, not_false_eq_true, true_and]
    constructor
    · intro path
      obtain ⟨first, second, found, rfl, phase, path⟩ := path.of_bind_finished
      cases found with
      | error e => cases path.finished_eq.2
      | ok last =>
        obtain ⟨heard, all, rfl, rfl⟩ := (phase_path reaches _ _ rfl).mp phase
        change Path (closing _) _ _ at path
        rw [closing_settled List.replicate_append_replicate] at path
        obtain ⟨rfl, same⟩ := path.finished_eq
        exact ⟨heard, all, by simp, (Except.ok.inj same).symm⟩
    · intro holds
      obtain ⟨heard, all, rfl, rfl⟩ := holds
      rw [← List.append_nil (phaseEvents ..)]
      refine ((phase_path reaches _ _ rfl).mpr ⟨heard, all, rfl, rfl⟩).bind_finished ?_
      change Path (closing _) _ _
      rw [closing_settled List.replicate_append_replicate]
      exact .here _

/-- Finishing an exchange waits for the x phase and then goes through the y phase, if it is wanted and there
are fields. -/
theorem finishExchange_path (reaches : m.Reaches m.yLegs) {fields result : List (Field α)} {xOnly : Bool}
    {posted : List Posted} {count : Nat} :
    Path (m.finishExchange
      { staged := fields, xOnly
        sends := List.replicate count settled
        receives := posted.map (Posted.expected m.rank fields) }) events (.finished (.ok result)) ↔
      ∃ heard : List (Heard α), heard.map Prod.fst = posted ∧
        (∀ h ∈ heard, h.2.size = h.1.leg.target.size fields) ∧
        (((xOnly = true ∨ m.afterPhase fields heard = []) ∧ events = receiveEvents m.rank heard ∧
            result = m.afterPhase fields heard) ∨
          (xOnly = false ∧ m.afterPhase fields heard ≠ [] ∧ ∃ later : List (Heard α),
            HeardAll m.yLegs (m.afterPhase fields heard) later ∧
            events = receiveEvents m.rank heard ++ phaseEvents m.rank (m.afterPhase fields heard) later ∧
            result = m.afterPhase (m.afterPhase fields heard) later)) := by
  rw [finishExchange_eq]
  constructor
  · intro path
    obtain ⟨first, second, found, rfl, completed, path⟩ := path.of_bind_finished
    cases found with
    | error e => cases path.finished_eq.2
    | ok ex =>
      obtain ⟨heard, sides, sizes, rfl, rfl⟩ := (complete_path posted (by rfl) _).mp completed
      refine ⟨heard, sides, sizes, ?_⟩
      rcases (secondPhase_path reaches).mp path with ⟨done, rfl, rfl⟩ | ⟨wanted, nonempty, later, all, rfl, rfl⟩
      · exact .inl ⟨done, by simp, rfl⟩
      · exact .inr ⟨wanted, nonempty, later, all, rfl, rfl⟩
  · intro holds
    obtain ⟨heard, sides, sizes, ⟨done, rfl, rfl⟩ | ⟨wanted, nonempty, later, all, rfl, rfl⟩⟩ := holds
    · rw [← List.append_nil (receiveEvents m.rank heard)]
      refine ((complete_path posted (by rfl) _).mpr ⟨heard, sides, sizes, rfl, rfl⟩).bind_finished ?_
      exact (secondPhase_path reaches).mpr (.inl ⟨done, rfl, rfl⟩)
    · refine ((complete_path posted (by rfl) _).mpr ⟨heard, sides, sizes, rfl, rfl⟩).bind_finished ?_
      exact (secondPhase_path reaches).mpr (.inr ⟨wanted, nonempty, later, all, rfl, rfl⟩)

end Mesh
end HaloMesh
