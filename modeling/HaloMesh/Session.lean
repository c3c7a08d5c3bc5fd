import HaloMesh.Operator.Calculus

/-! A working session on one rank: fields, vectors, exchanges and messages under way, all under
names. A name stands for a reference, so two names can share one field, and a vector shares
its components with the fields it was made of. A session can do without a mesh; then it
works on fields only. What was done before a step stopped stays done. -/

namespace HaloMesh

open Transport

namespace Session

/-- Why a step of a session has no result. -/
inductive Stop where
  | failure (f : Failure)
  | noField (name : String)
  | noVector (name : String)
  | noRequest (name : String)
  | noMesh
deriving DecidableEq, Repr

/-- The wording for a name that stands for nothing. -/
def Stop.message? : Stop → Option String
  | noField name => some s!"no field {name}"
  | noVector name => some s!"no vector {name}"
  | noRequest name => some s!"no request {name}"
  | _ => none

/-- A message under way. A receive knows its buffer by number. -/
structure Parcel (α : Type) where
  request : Request α
  buffer? : Option Nat := none

/-- What is waited on through the mesh: an exchange, or a receive from a place of the
processor grid. -/
inductive Handle (α : Type) where
  | exchange (h : RankM.Handle α)
  | receive (p : Parcel α)

/-- Whom a message is for: the neighbour on a side, or a rank by its place in the processor
grid. -/
inductive Peer where
  | side (s : Side)
  | proc (px py : Int)
deriving DecidableEq, Repr

end Session

structure Session (α : Type) where
  rank : Option (Rank α) := none
  store : Store α := Store.empty
  fields : List (String × FieldRef) := []
  vectors : List (String × Vector3 FieldRef) := []
  /-- An exchange that could not be started leaves its name without a handle. -/
  handles : List (String × Option (Session.Handle α)) := []
  requests : List (String × Session.Parcel α) := []
  /-- The receive buffers by their names, numbered as they were made. -/
  buffers : List (String × Nat × Array α) := []
  made : Nat := 0

/-- The session of a rank that has just been loaded. -/
def Session.ofMesh {α : Type} (m : Mesh α) : Session α := { rank := some (Rank.ofMesh m []) }

/-- The steps of a session. -/
abbrev SessionM (α : Type) := ExceptT Session.Stop (StateT (Session α) (Program (Array α)))

namespace SessionM

variable {α β : Type}

/-- A computation that needs no state. -/
def ofOutcome (r : Outcome β) : SessionM α β := ExceptT.mk (pure (r.mapError .failure))

instance : MonadLift Outcome (SessionM α) := ⟨ofOutcome⟩

/-- A computation of the rank, on the session's fields. Its failure is part of the result. -/
def attempt (c : RankM α β) : SessionM α (Outcome β) := do
  let s ← get
  match s.rank with
  | none => throw .noMesh
  | some r =>
    let (result, r) ← (c.run).run { r with store := s.store }
    set { s with rank := some r, store := r.store }
    return result

/-- A computation of the rank; its failure stops the step. -/
def onRank (c : RankM α β) : SessionM α β := do ofOutcome (← attempt c)

instance (priority := low) : MonadLift (RankM α) (SessionM α) := ⟨onRank⟩

/-- The rank at work, which a session without a mesh has not. -/
def rank : SessionM α (Rank α) := onRank get

def mesh : SessionM α (Mesh α) := onRank RankM.mesh

def mesh? : SessionM α (Option (Mesh α)) := do return (← get).rank.map Rank.mesh

/-! Fields and vectors. -/

def fieldRef (name : String) : SessionM α FieldRef := do
  match Named.find? (← get).fields name with
  | some r => return r
  | none => throw (.noField name)

def fieldAt (r : FieldRef) : SessionM α (Field α) := do
  match (← get).store.get? r with
  | some f => return f
  | none => throw (.failure .outOfRange)

def field (name : String) : SessionM α (Field α) := do fieldAt (← fieldRef name)

/-- Changes a field for every name that shares it. -/
def putField (r : FieldRef) (f : Field α) : SessionM α Unit :=
  modify fun s => { s with store := s.store.put r f }

def newField (f : Field α) : SessionM α FieldRef := do
  let s ← get
  let (r, store) := s.store.alloc f
  set { s with store }
  return r

/-- Names a field; an empty name is none. -/
def nameField (name : String) (r : FieldRef) : SessionM α Unit :=
  if name = "" then pure ()
  else modify fun s => { s with fields := Named.assign name r s.fields }

def vectorRef (name : String) : SessionM α (Vector3 FieldRef) := do
  match Named.find? (← get).vectors name with
  | some v => return v
  | none => throw (.noVector name)

def vectorAt (v : Vector3 FieldRef) : SessionM α (Vector3 (Field α)) := v.mapM fieldAt

def vector (name : String) : SessionM α (Vector3 (Field α)) := do vectorAt (← vectorRef name)

def newVector (v : Vector3 (Field α)) : SessionM α (Vector3 FieldRef) := v.mapM newField

/-- Names a vector; an empty name is none. -/
def nameVector (name : String) (v : Vector3 FieldRef) : SessionM α Unit :=
  if name = "" then pure ()
  else modify fun s => { s with vectors := Named.assign name v s.vectors }

/-! Messages. -/

def keepRequest (name : String) (p : Session.Parcel α) : SessionM α Unit :=
  modify fun s => { s with requests := Named.assign name p s.requests }

def keepHandle (name : String) (h : Option (Session.Handle α)) : SessionM α Unit :=
  modify fun s => { s with handles := Named.assign name h s.handles }

/-- The values of the buffer of a name, none if it has no buffer. -/
def bufferOf (name : String) : SessionM α (Array α) := do
  return ((Named.find? (← get).buffers name).map Prod.snd).getD #[]

/-- Takes over what a receive has got into its buffer, unless its name has a newer one. -/
def fill (p : Session.Parcel α) : SessionM α Unit :=
  modify fun s => { s with
    buffers := s.buffers.map fun (name, number, values) =>
      (name, number, if p.buffer? = some number then p.request.buffer else values) }

/-- Waits on a request and keeps it as it is afterwards. -/
def awaitRequest (name : String) : SessionM α (Option Error) := do
  match Named.find? (← get).requests name with
  | none => throw (.failure .outOfRange)
  | some p =>
    let (request, e) ← p.request.wait
    keepRequest name { p with request }
    fill { p with request }
    return e

/-- Waits on all of the requests that exist, in order, and gives the first error. -/
def awaitRequests : List String → SessionM α (Option Error)
  | [] => return none
  | name :: rest => do
    let first ←
      if (Named.find? (← get).requests name).isSome then awaitRequest name
      else pure none
    let later ← awaitRequests rest
    return first.or later

/-- An error stops the step. -/
def check (e : Option Error) : SessionM α Unit :=
  match e with
  | some e => throw (.failure (.returned e))
  | none => pure ()

/-- Waits on a request and gives its buffer as it was before. -/
def finish (name : String) : SessionM α (Array α) := do
  let before ← bufferOf name
  check (← awaitRequest name)
  return before

/-- Someone to talk to, who may not exist. -/
def peer (p : Option Session.Peer) : SessionM α Session.Peer :=
  match p with
  | some p => pure p
  | none => throw (.failure .outOfRange)

/-- Sends values to a neighbour, under a name. -/
def post (name : String) (target : Option Session.Peer) (values : Array α) (tag : Int) :
    SessionM α Unit := do
  let m ← mesh
  let request ←
    match ← peer target with
    | .side s => m.sendTo s values tag
    | .proc px py => m.sendToProc px py values tag
  keepRequest name { request }

variable [Scalar α]

/-- Makes a buffer of a name and posts a receive into it. The buffer stays if that fails. -/
def receive (name : String) (length : Nat) (request : Array α → SessionM α (Request α)) :
    SessionM α (Session.Parcel α) := do
  let s ← get
  let zeros : Array α := Array.replicate length 0
  set { s with buffers := Named.assign name (s.made, zeros) s.buffers, made := s.made + 1 }
  return { request := ← request zeros, buffer? := some s.made }

/-- Posts a receive from a neighbour, under a name. -/
def expect (name : String) (sender : Option Session.Peer) (length : Nat) (tag : Int) :
    SessionM α Unit := do
  let p ← receive name length fun buffer => do
    let m ← mesh
    match ← peer sender with
    | .side s => m.receiveFrom s buffer tag
    | .proc px py => m.receiveFromProc px py buffer tag
  match sender with
  | some (.proc _ _) => keepHandle name (some (.receive p))
  | _ => keepRequest name p

/-! Exchanges. -/

/-- Fills guard cells. An error handed back is the result, any other failure stops. -/
def communicate (refs : List FieldRef) (xOnly : Bool) : SessionM α (Option Error) := do
  match ← attempt (RankM.communicate refs xOnly) with
  | .ok () => return none
  | .error (.returned e) => return some e
  | .error f => throw (.failure f)

/-- Starts an exchange under a name. -/
def send (name : String) (refs : List FieldRef) : SessionM α Unit := do
  match ← attempt (RankM.send refs false) with
  | .ok h => keepHandle name (some (.exchange h))
  | .error f =>
    if f matches .returned _ then keepHandle name none
    throw (.failure f)

/-- Completes what a handle stands for. -/
def awaitHandle (name : String) : Option (Session.Handle α) → SessionM α (Option Error)
  | none => return some (.config .missingHandle)
  | some (.exchange h) => do
    let (h, e) ← onRank (RankM.wait h)
    keepHandle name (some (.exchange h))
    return e
  | some (.receive p) => do
    let (request, e) ← (← mesh).waitProc p.request
    keepHandle name (some (.receive { p with request }))
    fill { p with request }
    return e

/-- Completes the exchange of a name. -/
def wait (name : String) : SessionM α (Option Error) := do
  awaitHandle name (Named.find? (← get).handles name).join

/-- Completes the handle of a name, or else its request, for the buffer of that name. -/
def collect (name : String) : SessionM α (Array α) := do
  let s ← get
  match Named.find? s.handles name, Named.find? s.requests name with
  | some h, _ => check (← awaitHandle name h)
  | none, some _ => check (← awaitRequest name)
  | none, none => throw (.noRequest name)
  bufferOf name

end SessionM

/-- Ranks that go through steps together. All of them end a step before any of them starts the
next one; mail nobody fetched stays in the box. -/
structure Team (α : Type) where
  sessions : List (Session α)
  box : MailBox (Array α) := MailBox.empty

/-- One step of every rank, by its number. -/
def Team.advance {α β : Type} (t : Team α) (act : Nat → SessionM α β) :
    List (Except Session.Stop β) × Team α :=
  let (results, box) := runAll t.box (t.sessions.zipIdx.map fun (s, i) => ((act i).run).run s)
  (results.map Prod.fst, ⟨results.map Prod.snd, box⟩)

end HaloMesh
