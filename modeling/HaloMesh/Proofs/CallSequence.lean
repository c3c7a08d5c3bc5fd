import HaloMesh.Proofs.ExchangeRequests
import HaloMesh.Proofs.HaloPhase
import HaloMesh.Proofs.MailHistory

/-! A rank that communicates group after group. Its caller may do anything with the fields between two calls,
and goes on after a call that has failed. What the rank has asked of the mail is divided into its calls. -/

namespace HaloMesh
open Transport Program

variable {α : Type}

/-- What a caller does before its next call: given the results so far and the state of the rank, it brings the
rank into a state to call in and names a group. -/
abbrev Caller (α : Type) := List (Outcome Unit) → Rank α → Rank α × List FieldRef

/-- A call, with what it has asked of the mail so far and, once it has ended, its result. -/
structure Call (α : Type) where
  rank : Rank α
  group : List FieldRef
  events : List (Event (Array α))
  result : Option (Outcome Unit × Rank α)

/-- The group of a call is found and has the extents of the mesh. -/
def Call.Shaped (c : Call α) (m : Mesh α) : Prop :=
  c.rank.mesh = m ∧ ∃ fields, c.group.mapM c.rank.store.get? = some fields ∧ ∀ f ∈ fields, f.extents = m.extents

/-- Whether guard rows were sent, which happens once the x phase has succeeded. -/
def sendsRows (events : List (Event (Array α))) : Bool :=
  events.any fun event => match event with
    | .post key _ => decide (tagPhase key.tag = 1)
    | _ => false

variable [Scalar α]

/-- A rank that makes a number of calls, one after the other. -/
def session (caller : Caller α) : Nat → List (Outcome Unit) → Rank α →
    Program (Array α) (List (Outcome Unit) × Rank α)
  | 0, past, r => .finished (past, r)
  | calls + 1, past, r =>
    ((RankM.communicate (caller past r).2 false).run.run (caller past r).1).bind fun ended =>
      session caller calls (past ++ [ended.1]) ended.2

/-- The calls that a session has made. Only the last one may be under way. -/
inductive Calls (caller : Caller α) : Nat → List (Outcome Unit) → Rank α → List (Call α) → Prop where
  | idle (more : Nat) (past : List (Outcome Unit)) (r : Rank α) : Calls caller more past r []
  | underway {more : Nat} {past : List (Outcome Unit)} {r : Rank α} {events : List (Event (Array α))}
      {rest : Program (Array α) (Outcome Unit × Rank α)}
      (path : Path ((RankM.communicate (caller past r).2 false).run.run (caller past r).1) events rest) :
      Calls caller (more + 1) past r [⟨(caller past r).1, (caller past r).2, events, none⟩]
  | ended {more : Nat} {past : List (Outcome Unit)} {r : Rank α} {events : List (Event (Array α))}
      {result : Outcome Unit × Rank α} {later : List (Call α)}
      (path : Path ((RankM.communicate (caller past r).2 false).run.run (caller past r).1) events (.finished result))
      (rest : Calls caller more (past ++ [result.1]) result.2 later) :
      Calls caller (more + 1) past r (⟨(caller past r).1, (caller past r).2, events, some result⟩ :: later)

theorem session_calls (caller : Caller α) {more : Nat} {past : List (Outcome Unit)} {r : Rank α}
    {events : List (Event (Array α))} {q : Program (Array α) (List (Outcome Unit) × Rank α)}
    (path : Path (session caller more past r) events q) :
    ∃ calls, Calls caller more past r calls ∧ events = calls.flatMap Call.events := by
  induction more generalizing past r events with
  | zero =>
    cases path
    exact ⟨[], .idle .., rfl⟩
  | succ more ih =>
    rcases path.of_bind with ⟨rest, inside, -⟩ | ⟨first, second, result, rfl, inside, after⟩
    · exact ⟨_, .underway inside, by simp⟩
    · obtain ⟨later, calls, rfl⟩ := ih after
      exact ⟨_, .ended inside calls, rfl⟩

/-! What one call asks of the mail. -/

/-- A call posts and claims under its own rank only, and posts at most once on a side. -/
structure Asks (m : Mesh α) (events : List (Event (Array α))) : Prop where
  sends : ∀ key message, .post key message ∈ events → key.sender = m.rank
  claims : ∀ key number, .claim key number ∈ events → key.receiver = m.rank
  once : ∀ side d, m.neighbour? side = some d → (Event.posts ⟨m.rank, d, side.tag.number⟩ events).length ≤ 1

/-- A call that has ended has posted and claimed once on every side in x, and on the sides in y if it has come
to send guard rows at all. -/
structure AsksAll (m : Mesh α) (events : List (Event (Array α))) : Prop extends Asks m events where
  columns : ∀ side ∈ m.shape.xSides, ∀ d, m.neighbour? side = some d →
    (Event.posts ⟨m.rank, d, side.tag.number⟩ events).length = 1 ∧
      (Event.claims ⟨d, m.rank, side.opposite.tag.number⟩ events).length = 1
  rows : ∀ side ∈ m.shape.ySides, ∀ d, m.neighbour? side = some d →
    (Event.posts ⟨m.rank, d, side.tag.number⟩ events).length = (if sendsRows events then 1 else 0) ∧
      (Event.claims ⟨d, m.rank, side.opposite.tag.number⟩ events).length = if sendsRows events then 1 else 0

omit [Scalar α] in
theorem sendsRows_iff {events : List (Event (Array α))} :
    sendsRows events = true ↔ ∃ key message, Event.post key message ∈ events ∧ tagPhase key.tag = 1 := by
  simp only [sendsRows, List.any_eq_true]
  constructor
  · intro known
    obtain ⟨event, member, holds⟩ := known
    cases event with
    | post key message => exact ⟨key, message, member, by simpa using holds⟩
    | claim | receive | pending => cases holds
  · intro known
    obtain ⟨key, message, member, phase⟩ := known
    exact ⟨_, member, by simpa using phase⟩

variable {l : Layout α} {i : Nat} {m : Mesh α}

omit [Scalar α] in
theorem Asks.rows {events : List (Event (Array α))} (asks : Asks m events) {side : Side} {d : Int}
    (inY : side ∈ m.shape.ySides) (across : m.neighbour? side = some d) :
    (Event.posts ⟨m.rank, d, side.tag.number⟩ events).length ≤ if sendsRows events then 1 else 0 := by
  by_cases sent : sendsRows events = true
  · rw [if_pos sent]
    exact asks.once side d across
  · rw [if_neg sent, Nat.le_zero, List.length_eq_zero_iff, List.eq_nil_iff_forall_not_mem]
    intro message member
    exact sent (sendsRows_iff.mpr ⟨_, message, Event.mem_posts.mp member, GridShape.tagPhase_ySides inY⟩)

/-- An exchange asks for everything of a phase or for nothing of it. -/
theorem exchange_asksAll (given : l.Assigns i m) (room : m.HasRoom) {fields : List (Field α)}
    (shaped : ∀ f ∈ fields, f.extents = m.extents) {events : List (Event (Array α))}
    {result : Except Error (List (Field α))} (path : Path (m.exchange fields false) events (.finished result)) :
    AsksAll m events := by
  have words := Layout.inWords_of_room given room
  have shape := Layout.shape_eq given
  obtain ⟨first, second, staged, reached, sides, sides', same⟩ :=
    Mesh.exchange_asks (fun sides => Layout.reaches_sides given sides) shaped path
  let rows := if reached then m.shape.ySides else []
  have inRows (side : Side) : side ∈ rows ↔ reached = true ∧ side ∈ m.shape.ySides := by
    cases reached <;> simp [rows]
  have legs : (if reached then m.yLegs else []) = rows.map m.leg := by
    cases reached
    · rfl
    · exact m.yLegs_eq
  rw [Mesh.xLegs_eq, Layout.talking_eq words given fun side member => List.mem_append_left _ (shape ▸ member)] at sides
  rw [legs, Layout.talking_eq words given fun side member =>
    List.mem_append_right _ (shape ▸ ((inRows side).mp member).2)] at sides'
  obtain ⟨distinctX, distinctY, apart⟩ := List.nodup_append.mp m.shape.nodup_sides
  have distinct : rows.Nodup := by
    cases reached
    · exact List.nodup_nil
    · exact distinctY
  have asked := Mesh.asked_keys fields sides
  have asked' := Mesh.asked_keys staged sides'
  have posted (key : MailKey) (message : Array α) (member : .post key message ∈ events) := by
    rw [← Event.mem_posts, (same key).1, Event.mem_posts] at member
    exact List.mem_append.mp member
  have claimed (key : MailKey) (number : Nat) (member : .claim key number ∈ events) := by
    rw [← Event.mem_claims, (same key).2, Event.mem_claims] at member
    exact List.mem_append.mp member
  have on (side : Side) (d : Int) (across : m.neighbour? side = some d) :
      (Event.posts ⟨m.rank, d, side.tag.number⟩ events).length =
          (if side ∈ m.shape.xSides then 1 else 0) + (if side ∈ rows then 1 else 0) ∧
        (Event.claims ⟨d, m.rank, side.opposite.tag.number⟩ events).length =
          (if side ∈ m.shape.xSides then 1 else 0) + if side ∈ rows then 1 else 0 := by
    obtain ⟨posts, claims⟩ := Mesh.asked_on_side fields distinctX across sides
    obtain ⟨posts', claims'⟩ := Mesh.asked_on_side staged distinct across sides'
    rw [(same _).1, (same _).2, Event.posts_append, Event.claims_append, List.length_append, List.length_append,
      posts, posts', claims, claims']
    refine ⟨congrArg₂ _ ?_ ?_, rfl⟩ <;> split <;> rfl
  refine ⟨⟨fun key message member => ?_, fun key number member => ?_, fun side d across => ?_⟩,
    fun side inX d across => ?_, fun side inY d across => ?_⟩
  · rcases posted key message member with early | late
    · exact (asked.1 key message early).1
    · exact (asked'.1 key message late).1
  · rcases claimed key number member with early | late
    · exact asked.2 key number early
    · exact asked'.2 key number late
  · rw [(on side d across).1]
    by_cases inX : side ∈ m.shape.xSides
    · have elsewhere : side ∉ rows := fun late => apart side inX side ((inRows side).mp late).2 rfl
      rw [if_pos inX, if_neg elsewhere]
    · rw [if_neg inX]
      split <;> omega
  · have elsewhere : side ∉ rows := fun late => apart side inX side ((inRows side).mp late).2 rfl
    rw [(on side d across).1, (on side d across).2, if_pos inX, if_neg elsewhere]
    exact ⟨rfl, rfl⟩
  · have elsewhere : side ∉ m.shape.xSides := fun inX => apart side inX side inY rfl
    -- guard rows are sent if and only if the second phase was reached
    have sent : sendsRows events = reached := by
      rw [Bool.eq_iff_iff, sendsRows_iff]
      constructor
      · intro holds
        obtain ⟨key, message, member, phase⟩ := holds
        rcases posted key message member with early | late
        · obtain ⟨-, other, inX, tag⟩ := asked.1 key message early
          rw [tag, GridShape.tagPhase_xSides inX] at phase
          cases phase
        · obtain ⟨-, other, inside, -⟩ := asked'.1 key message late
          exact ((inRows other).mp inside).1
      · intro came
        have some_ := (on side d across).1
        rw [if_neg elsewhere, if_pos ((inRows side).mpr ⟨came, inY⟩)] at some_
        obtain ⟨message, member⟩ := List.exists_mem_of_length_pos (show 0 < _ by rw [some_]; omega)
        exact ⟨_, message, Event.mem_posts.mp member, GridShape.tagPhase_ySides inY⟩
    rw [(on side d across).1, (on side d across).2, if_neg elsewhere, sent, Nat.zero_add]
    simp only [inRows, inY, and_true, and_self]

/-! What is known of every call of a session. -/

namespace Calls

variable {caller : Caller α} {more : Nat} {past : List (Outcome Unit)} {r : Rank α} {calls : List (Call α)}

theorem path (made : Calls caller more past r calls) {c : Call α} (member : c ∈ calls) :
    ∃ rest, Path ((RankM.communicate c.group false).run.run c.rank) c.events rest ∧
      ∀ result, c.result = some result → rest = .finished result := by
  induction made with
  | idle => cases member
  | underway path =>
    obtain rfl := List.mem_singleton.mp member
    exact ⟨_, path, fun _ impossible => by cases impossible⟩
  | ended path _ ih =>
    rcases List.mem_cons.mp member with rfl | among
    · exact ⟨_, path, fun _ same => by cases same; rfl⟩
    · exact ih among

theorem ended_of_later (made : Calls caller more past r calls) {k : Nat} {c : Call α} (found : calls[k]? = some c)
    (later : k + 1 < calls.length) : ∃ result, c.result = some result := by
  induction made generalizing k with
  | idle => simp at found
  | underway path => simp at later
  | @ended _ _ _ _ result _ path _ ih =>
    cases k with
    | zero =>
      obtain rfl := Option.some.inj found
      exact ⟨result, rfl⟩
    | succ k => exact ih found (by simpa using later)

variable {c : Call α} {result : Outcome Unit × Rank α}

theorem exchanged (made : Calls caller more past r calls) (member : c ∈ calls) (shaped : c.Shaped m)
    (ended : c.result = some result) : ∃ fields outcome,
      c.group.mapM c.rank.store.get? = some fields ∧ (∀ f ∈ fields, f.extents = m.extents) ∧
        Path (m.exchange fields false) c.events (.finished outcome) ∧
        ((∃ e, outcome = .error e ∧ result = (.error (.returned e), c.rank)) ∨ ∃ staged, outcome = .ok staged ∧
          result = (.ok (), { c.rank with store := c.rank.store.putAllValues c.group staged })) := by
  obtain ⟨mesh, fields, found, extents⟩ := shaped
  obtain ⟨rest, path, last⟩ := made.path member
  obtain rfl := last result ended
  obtain ⟨outcome, exchanged, ends⟩ := RankM.communicate_path found path
  rw [mesh] at exchanged
  exact ⟨fields, outcome, found, extents, exchanged, ends⟩

theorem asksAll (made : Calls caller more past r calls) (member : c ∈ calls) (shaped : c.Shaped m)
    (given : l.Assigns i m) (room : m.HasRoom) (ended : c.result = some result) : AsksAll m c.events := by
  obtain ⟨fields, outcome, -, extents, path, -⟩ := made.exchanged member shaped ended
  exact exchange_asksAll given room extents path

/-- What is true of the requests of a whole call is true of those made so far. -/
theorem asks (made : Calls caller more past r calls) (member : c ∈ calls) (shaped : c.Shaped m)
    (given : l.Assigns i m) (room : m.HasRoom) : Asks m c.events := by
  obtain ⟨mesh, fields, found, extents⟩ := shaped
  obtain ⟨rest, path, -⟩ := made.path member
  obtain ⟨later, result, completed⟩ := Path.completes rest
  obtain ⟨outcome, exchanged, -⟩ := RankM.communicate_path found (path.trans completed)
  rw [mesh] at exchanged
  have whole := (exchange_asksAll given room extents exchanged).toAsks
  refine ⟨fun key message member => whole.sends key message (List.mem_append_left _ member),
    fun key number member => whole.claims key number (List.mem_append_left _ member), fun side d across => ?_⟩
  have once := whole.once side d across
  rw [Event.posts_append, List.length_append] at once
  omega

end Calls

end HaloMesh
