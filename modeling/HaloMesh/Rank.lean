import HaloMesh.Field.Store
import HaloMesh.Mesh.FieldLine
import HaloMesh.Mesh.Guards
import HaloMesh.Mesh.Load
import HaloMesh.Mesh.Variables
import HaloMesh.Metric.Coordinates
import HaloMesh.Transform

/-! The state of one rank at work, and the computations on it. Coordinates and the parallel
transform are made when they are first needed and kept; fields live in a store where they
can be shared. What a rank has done stays done when a computation fails. -/

namespace HaloMesh

open Transport

structure Rank (α : Type) where
  mesh : Mesh α
  coordinates : List (Location × Coordinates α)
  transform : Option (ParallelTransform α)
  boundaries : List Region
  parallelBoundaries : List Region
  warnings : List String
  store : Store α

/-- A rank that has just been loaded. -/
def Rank.ofMesh {α : Type} (m : Mesh α) (warnings : List String) : Rank α :=
  { mesh := m, coordinates := [], transform := none, boundaries := m.boundaryRegions
    parallelBoundaries := [], warnings, store := Store.empty }

/-- Computations of a rank, which talk to other ranks and may fail. -/
abbrev RankM (α : Type) := ExceptT Failure (StateT (Rank α) (Program (Array α)))

namespace RankM

variable {α β : Type}

/-- A computation that needs no state. -/
def ofOutcome (r : Outcome β) : RankM α β := ExceptT.mk (pure r)

/-- A conversation with the other ranks. -/
def talk (p : Program (Array α) β) : RankM α β := ExceptT.lift (StateT.lift p)

/-- A conversation whose error is handed back. -/
def tryTalk (p : Program (Array α) (Except Error β)) : RankM α β := do
  ofOutcome ((← talk p).mapError .returned)

def mesh : RankM α (Mesh α) := do return (← get).mesh

def warn (message : String) : RankM α Unit :=
  modify fun r => { r with warnings := r.warnings ++ [message] }

/-- Hands out the warnings since the last time. -/
def takeWarnings : RankM α (List String) := do
  let r ← get
  set { r with warnings := [] }
  return r.warnings

/-- Raises the errors of a computation that nobody can act on. -/
def insist (c : RankM α β) : RankM α β := ExceptT.mk do
  return (← c.run).mapError Failure.escalate

/-- A label on the errors a computation hands back. -/
def labelled (activity : Activity) (c : RankM α β) : RankM α β := ExceptT.mk do
  return (← c.run).mapError fun
    | .returned e => .returned (.within activity e)
    | f => f

/-- Adds a boundary region, of field lines if told so. -/
def addBoundary (r : Region) (parallel : Bool) : RankM α Unit := modify fun s =>
  if parallel then { s with parallelBoundaries := s.parallelBoundaries ++ [r] }
  else { s with boundaries := s.boundaries ++ [r] }

/-- Replaces the parallel transform. -/
def setTransform (t : ParallelTransform α) : RankM α Unit :=
  modify fun s => { s with transform := some t }

/-! Fields by reference. -/

def fieldAt (r : FieldRef) : RankM α (Field α) := do
  match (← get).store.get? r with
  | some f => return f
  | none => throw .outOfRange

def putField (r : FieldRef) (f : Field α) : RankM α Unit :=
  modify fun s => { s with store := s.store.put r f }

def newField (f : Field α) : RankM α FieldRef := do
  let s ← get
  let (r, store) := s.store.alloc f
  set { s with store }
  return r

/-- An exchange under way for fields of the store. A handle is waited on once. It has its own
copy of the references. Where a caller passes a list of its own and the handle keeps that list,
this describes callers that leave the list alone until the wait. -/
structure Handle (α : Type) where
  fields : List FieldRef
  exchange : Exchange α
  consumed : Bool

variable [Scalar α]

/-- Fills the guard cells of fields given by value. -/
def exchanged (fields : List (Field α)) : RankM α (List (Field α)) := do
  tryTalk ((← mesh).exchange fields false)

/-- Starts filling the guard cells of stored fields. -/
def send (refs : List FieldRef) (xOnly : Bool) : RankM α (Handle α) := do
  let fields ← refs.mapM fieldAt
  let exchange ← tryTalk ((← mesh).startExchange fields xOnly)
  return { fields := refs, exchange, consumed := false }

/-- Completes an exchange and puts the staged values into the fields. The handle comes
back consumed, also with an error. -/
def wait (h : Handle α) : RankM α (Handle α × Option Error) := do
  if h.consumed then return (h, some .handleConsumed)
  let spent := { h with consumed := true }
  match ← talk ((← mesh).finishExchange h.exchange) with
  | .error e => return (spent, some e)
  | .ok staged =>
    modify fun s => { s with store := s.store.putAllValues h.fields staged }
    return (spent, none)

/-- Fills the guard cells of stored fields, only those along x if told so. -/
def communicate (refs : List FieldRef) (xOnly : Bool) : RankM α Unit := do
  match ← wait (← send refs xOnly) with
  | (_, some e) => throw (.returned e)
  | (_, none) => return ()

/-- The mean of a field along each field line, for every column and z; constant in y. -/
def averageY (f : Field α) : RankM α (Field α) := do
  let m ← mesh
  let groups ← ofOutcome m.columnGroups
  let mut data := f.zeroLike.data
  for g in groups do
    let values ← ofOutcome (m.columnSums f g.columns)
    let sums ← labelled .averaging
      (tryTalk (g.communicator.allReduceSum values Mesh.averageTag))
    data ← ofOutcome (Mesh.spreadMeans f g.columns sums data)
  ofOutcome (f.withData data)

/-- The parallel transform the options name, made on first use. -/
def parallelTransform : RankM α (ParallelTransform α) := do
  let r ← get
  match r.transform with
  | some t => return t
  | none =>
    let t ←
      if transformName r.mesh.options = "shifted" then do
        let (zShift, missing) ← ofOutcome (r.mesh.getField "zShift" 0)
        if let some e := missing then
          if !e.isA .notFound then throw (.raised e)
          warn "shifted metric without zShift in the grid, using zero"
        let metric ← ofOutcome (ShiftedMetric.make zShift r.mesh.zLength)
        pure (ParallelTransform.shifted metric)
      else pure ParallelTransform.identity
    modify fun r => { r with transform := some t }
    return t

def toAligned (f : Field α) : RankM α (Field α) := do
  ofOutcome ((← parallelTransform).toAligned f)

def fromAligned (f : Field α) : RankM α (Field α) := do
  ofOutcome ((← parallelTransform).fromAligned f)

end RankM

end HaloMesh
