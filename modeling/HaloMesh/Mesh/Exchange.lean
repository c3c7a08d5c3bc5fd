import HaloMesh.Difference.Spectral
import HaloMesh.Mesh.Basic
import HaloMesh.Transport.Communicator

/-! Filling guard cells from the neighbours. The x guards beside the interior rows come first,
then the y guards over all columns, so that corner cells are right. Everything that
arrives is kept in staged copies; the caller gets them only if the whole exchange
succeeded. -/

namespace HaloMesh

open Transport

/-- An inclusive range of columns and rows, all z. -/
structure Block where
  x0 : Int
  x1 : Int
  y0 : Int
  y1 : Int
deriving DecidableEq, Repr

namespace Block

variable {α : Type}

/-- The block between ends that count as words. -/
def between (x0 x1 y0 y1 : Int) : Block :=
  ⟨Index.wrap x0, Index.wrap x1, Index.wrap y0, Index.wrap y1⟩

def isEmpty (b : Block) : Bool := decide (b.x1 < b.x0) || decide (b.y1 < b.y0)

/-- The columns of a block in storage order. -/
def columns (b : Block) : List (Int × Int) :=
  (Index.span b.x0 b.x1).flatMap fun x => (Index.span b.y0 b.y1).map fun y => (x, y)

/-- The number of values a group of fields has in the block. -/
def size (b : Block) (fields : List (Field α)) : Nat :=
  fields.foldr (fun f n => b.columns.length * f.nz + n) 0

/-- The values of a field in the block. -/
def packField (b : Block) (f : Field α) : List α :=
  b.columns.flatMap fun (x, y) =>
    let i := (f.lineStart x y).toNat
    (f.data.extract i (i + f.nz)).toList

/-- The values of a group of fields, field after field. -/
def pack (b : Block) (fields : List (Field α)) : Array α := (fields.flatMap b.packField).toArray

/-- Writes one z line after the other from a list of values. -/
def unpackColumns (f : Field α) : List (Int × Int) → List α → Field α × List α
  | [], values => (f, values)
  | (x, y) :: rest, values =>
    unpackColumns (f.setLine x y (values.take f.nz)) rest (values.drop f.nz)

/-- Spreads received values over the block of every field. -/
def unpack (b : Block) : List (Field α) → List α → List (Field α)
  | [], _ => []
  | f :: rest, values =>
    let (g, values) := unpackColumns f b.columns values
    g :: unpack b rest values

end Block

/-- The message tags, named by the side that sent them. -/
inductive ExchangeTag where
  | innerSentUp | outerSentUp | innerSentDown | outerSentDown | inSentOut | outSentIn
deriving DecidableEq, Repr

def ExchangeTag.number : ExchangeTag → Int
  | innerSentUp => 0
  | outerSentUp => 1
  | innerSentDown => 2
  | outerSentDown => 3
  | inSentOut => 4
  | outSentIn => 5

/-- One side of an exchange: whom to talk to, what to send, where to put what arrives, and
the sense in which arriving rows are turned in z. -/
structure Leg where
  destination : Option Int
  sendTag : ExchangeTag
  receiveTag : ExchangeTag
  source : Block
  target : Block
  turn : Int
deriving DecidableEq, Repr

/-- A receive under way, with the block it fills. -/
structure Expected (α : Type) where
  request : Request α
  target : Block
  turn : Int

/-- A group exchange under way. -/
structure Exchange (α : Type) where
  staged : List (Field α)
  xOnly : Bool
  sends : List (Request α)
  receives : List (Expected α)

namespace Mesh

variable {α : Type}

/-- The exchange of the x guards over the interior rows. -/
def xLegs (m : Mesh α) : List Leg :=
  let mxg := m.shape.mxg
  if mxg = 0 then []
  else
    [ { destination := m.xin, sendTag := .outSentIn, receiveTag := .inSentOut
        source := .between m.xstart (m.xstart + mxg - 1) m.ystart m.yend
        target := .between 0 (mxg - 1) m.ystart m.yend
        turn := 0 },
      { destination := m.xout, sendTag := .inSentOut, receiveTag := .outSentIn
        source := .between (m.xend - mxg + 1) m.xend m.ystart m.yend
        target := .between (m.xend + 1) (m.localNx - 1) m.ystart m.yend
        turn := 0 } ]

/-- The exchange of the y guards over all columns, on both sides of the splits. -/
def yLegs (m : Mesh α) : List Leg :=
  let myg := m.shape.myg
  let turned (twist : Bool) (sign : Int) : Int :=
    if twist && m.shape.twistShift then sign else 0
  let up (x0 x1 : Int) : Block × Block :=
    (.between x0 x1 (m.yend - myg + 1) m.yend, .between x0 x1 (m.yend + 1) (m.localNy - 1))
  let down (x0 x1 : Int) : Block × Block :=
    (.between x0 x1 m.ystart (m.ystart + myg - 1), .between x0 x1 0 (myg - 1))
  let leg (destination : Option Int) (sendTag receiveTag : ExchangeTag) (blocks : Block × Block)
      (turn : Int) : Leg :=
    { destination, sendTag, receiveTag, source := blocks.1, target := blocks.2, turn }
  if myg = 0 then []
  else
    [ leg m.up.inner .innerSentUp .innerSentDown (up 0 (m.up.split - 1))
        (turned m.up.innerTwist (-1)),
      leg m.up.outer .outerSentUp .outerSentDown (up m.up.split (m.localNx - 1))
        (turned m.up.outerTwist (-1)),
      leg m.down.inner .innerSentDown .innerSentUp (down 0 (m.down.split - 1))
        (turned m.down.innerTwist 1),
      leg m.down.outer .outerSentDown .outerSentUp (down m.down.split (m.localNx - 1))
        (turned m.down.outerTwist 1) ]

variable [Scalar α]

/-- Posts the send and the receive of each side that has a neighbour. -/
def postLegs (m : Mesh α) : List Leg → Exchange α → Program (Array α) (Exchange α)
  | [], ex => return ex
  | leg :: rest, ex =>
    match leg.destination with
    | none => postLegs m rest ex
    | some destination =>
      if leg.source.isEmpty then postLegs m rest ex
      else do
        let sent ← m.endpoint.send destination leg.sendTag.number (leg.source.pack ex.staged)
        let buffer := Array.replicate (leg.target.size ex.staged) (0 : α)
        let request ← m.endpoint.receive destination leg.receiveTag.number buffer
        postLegs m rest
          { ex with
            sends := ex.sends ++ [sent]
            receives := ex.receives ++ [{ request, target := leg.target, turn := leg.turn }] }

/-- Turns the received rows of closed field lines in z, where they cross their branch cut. -/
def turnBlock (m : Mesh α) (f : Field α) (b : Block) (turn : Int) : Field α :=
  if f.nz = 1 then f
  else
    match (Modes.ofLength f.nz : Outcome (Modes α)) with
    | .error _ => f
    | .ok modes =>
      b.columns.foldl (fun (g : Field α) (x, y) =>
        let angle := Scalar.ofInt turn * ((m.shape.angleAt (m.globalX x)).toOption).getD 0
        if Scalar.same angle 0 then g
        else
          let i := (g.lineStart x y).toNat
          let line := g.data.extract i (i + g.nz)
          g.setLine x y (modes.shift line (angle / m.zLength)).toList) f

/-- Puts received values into the staged fields. -/
def place (m : Mesh α) (staged : List (Field α)) : List (Expected α) → List (Field α)
  | [] => staged
  | e :: rest =>
    let filled := e.target.unpack staged e.request.buffer.toList
    let turned :=
      if e.turn = 0 then filled else filled.map fun f => m.turnBlock f e.target e.turn
    m.place turned rest

/-- Waits for every receive under way. The staged fields change only if all of them
succeeded. -/
def complete (m : Mesh α) (ex : Exchange α) :
    Program (Array α) (Except Error (Exchange α)) := do
  let (done, errors) ← waitEach (ex.receives.map Expected.request)
  match Error.join? errors with
  | some e => return .error (.within (.exchangeOnRank m.rank) e)
  | none =>
    let arrived := (ex.receives.zip done).map fun (e, request) => { e with request }
    return .ok { ex with staged := m.place ex.staged arrived, receives := [] }

/-- Starts an exchange of fields over the block and returns without waiting. -/
def startExchange (m : Mesh α) (fields : List (Field α)) (xOnly : Bool) :
    Program (Array α) (Except Error (Exchange α)) :=
  match fields.find? fun f => f.extents ≠ m.extents with
  | some f => return .error (.config (.fieldExtents f.extents m.extents))
  | none => do
    let ex ← m.postLegs m.xLegs { staged := fields, xOnly, sends := [], receives := [] }
    return .ok ex

/-- Completes an exchange. The y guards are posted here, so all ranks have to complete
their exchanges in the same order. A group without fields is a call that names none and so
passes no list: nothing is posted along y for it. A caller that does pass a list, and an empty
one, would still exchange messages without values along y, and is not described here. -/
def finishExchange (m : Mesh α) (ex : Exchange α) :
    Program (Array α) (Except Error (List (Field α))) := do
  match ← m.complete ex with
  | .error e => return .error e
  | .ok ex =>
    let second : Except Error (Exchange α) ←
      if ex.xOnly || ex.staged.isEmpty then pure (.ok ex)
      else do m.complete (← m.postLegs m.yLegs ex)
    match second with
    | .error e => return .error e
    | .ok ex =>
      let (_, errors) ← waitEach ex.sends
      match errors with
      | e :: _ => return .error (.within .exchange e)
      | [] => return .ok ex.staged

/-- A whole exchange: the fields with their guard cells filled. -/
def exchange (m : Mesh α) (fields : List (Field α)) (xOnly : Bool) :
    Program (Array α) (Except Error (List (Field α))) := do
  match ← m.startExchange fields xOnly with
  | .error e => return .error e
  | .ok ex => m.finishExchange ex

/-! Messages between single ranks of the processor grid. -/

/-- Sends to the rank on a side of the block. -/
def sendTo (m : Mesh α) (side : Side) (values : Array α) (tag : Int) :
    Program (Array α) (Request α) :=
  match m.neighbour? side with
  | none => return { duty := .failed (.noNeighbour true side) }
  | some rank => m.endpoint.send rank tag values

/-- Receives from the rank on a side of the block. -/
def receiveFrom (m : Mesh α) (side : Side) (buffer : Array α) (tag : Int) :
    Program (Array α) (Request α) :=
  match m.neighbour? side with
  | none => return { duty := .failed (.noNeighbour false side), buffer }
  | some rank => m.endpoint.receive rank tag buffer

def sendToProc (m : Mesh α) (px py : Int) (values : Array α) (tag : Int) :
    Program (Array α) (Request α) :=
  m.endpoint.send (m.procRank px py) tag values

def receiveFromProc (m : Mesh α) (px py : Int) (buffer : Array α) (tag : Int) :
    Program (Array α) (Request α) :=
  m.endpoint.receive (m.procRank px py) tag buffer

/-- Completes a receive from a place of the processor grid. -/
def waitProc (m : Mesh α) (r : Request α) : Program (Array α) (Request α × Option Error) :=
  if r.consumed then return (r, some .handleConsumed)
  else do
    let (r, e) ← r.wait
    return (r, e.map fun e => .within (.exchangeOnRank m.rank) e)

end Mesh

end HaloMesh
