import HaloMesh.Difference.Method

/-! Everything that can go wrong, as causes. A cause carries what its message needs; the
wording stands in one place. Errors are returned to a caller who can act on them, raised
where an operator is misused, and an index that leaves its storage ends the computation
without a message. -/

namespace HaloMesh

/-- The three extents of a field or a block. -/
structure Extents where
  nx : Int
  ny : Int
  nz : Int
deriving DecidableEq, Repr

def Extents.text (e : Extents) : String := s!"{e.nx}x{e.ny}x{e.nz}"

/-- What a grid or an option set asks for that no mesh can have. -/
inductive Misconfiguration where
  | noTransport
  | alreadyLoaded
  | negativeGuards (mxg myg : Int)
  | gridTooSmall (nx ny nz mxg : Int)
  | emptyZRange (zmax zmin : String)
  | notADivisor (nxpe nproc : Int)
  | tooFewColumns (nxpe size mxg : Int)
  | tooFewRows (nype size myg : Int)
  | cutInsideBlock (cut nype : Int)
  | shiftAngleLength (length nx : Int)
  | separatrixRows (first second ny : Int)
  | unpairedLegs (first second : Int)
  | linkIntoBlock (edge row : Int)
  | defaultTooWide (axis : Axis) (kind : Kind) (method : Method) (width guards : Int)
  | unknownTransform (name : String)
  | profileLength (name : String) (length nx : Int)
  | fieldColumns (name : String) (columns nx : Int)
  | fieldRows (name : String) (rows ny : Int)
  | fieldExtents (field mesh : Extents)
  | missingHandle
deriving DecidableEq, Repr

namespace Misconfiguration

def message : Misconfiguration → String
  | noTransport => "mesh needs a transport"
  | alreadyLoaded => "mesh already loaded"
  | negativeGuards mxg myg =>
    s!"guard cell counts must be non negative, MXG = {mxg}, MYG = {myg}"
  | gridTooSmall nx ny nz mxg => s!"grid size {nx} x {ny} x {nz} too small for MXG = {mxg}"
  | emptyZRange zmax zmin => s!"ZMAX {zmax} must exceed ZMIN {zmin}"
  | notADivisor nxpe nproc => s!"NXPE = {nxpe} does not divide {nproc} processors"
  | tooFewColumns nxpe size mxg =>
    s!"NXPE = {nxpe} leaves {size} x points per processor, need at least MXG = {mxg}"
  | tooFewRows nype size myg =>
    s!"NYPE = {nype} leaves {size} y points per processor, need at least MYG = {myg}"
  | cutInsideBlock cut nype =>
    s!"branch cut at y = {cut} is not on a processor boundary with NYPE = {nype}"
  | shiftAngleLength length nx => s!"ShiftAngle has {length} values, need nx = {nx}"
  | separatrixRows first second ny =>
    s!"need -1 <= jyseps1_1 < jyseps2_2 <= ny-1, have {first}, {second} with ny = {ny}"
  | unpairedLegs first second =>
    "single null needs both divertor legs or neither, " ++
      s!"jyseps1_1 = {first}, jyseps2_2 = {second}"
  | linkIntoBlock edge row =>
    s!"y connection from row {edge} to row {row} crosses a processor interior"
  | defaultTooWide axis kind method width guards =>
    s!"default {axis.name} {kind.name} method {method.key} needs {width} guard cells, " ++
      s!"have {guards}"
  | unknownTransform name =>
    s!"unknown parallel transform {Text.quoted name}, options are [identity shifted]"
  | profileLength name length nx => s!"profile {name} has {length} values, need {nx}"
  | fieldColumns name columns nx => s!"field {name} has {columns} x points, need {nx}"
  | fieldRows name rows ny => s!"field {name} has {rows} y points, need {ny}"
  | fieldExtents field mesh => s!"field {field.text} does not match the mesh {mesh.text}"
  | missingHandle => "wait on a nil communication handle"

end Misconfiguration

/-- How a rank outside the world came to be named. -/
inductive RankUse where
  | destination | source | member | endpoint
deriving DecidableEq, Repr

def RankUse.message (use : RankUse) (rank : Int) : String :=
  match use with
  | destination => s!"send to {rank}"
  | source => s!"receive from {rank}"
  | member => s!"communicator rank {rank}"
  | endpoint => s!"rank {rank}"

/-- The shapes a grid variable can have. -/
inductive VariableShape where
  | scalar | profile | field
deriving DecidableEq, Repr

def VariableShape.name : VariableShape → String
  | scalar => "scalar"
  | profile => "profile"
  | field => "field"

/-- The sides a block has neighbours on. The two ends in y are split in x. -/
inductive Side where
  | xOut | xIn | yOutInner | yOutOuter | yInInner | yInOuter
deriving DecidableEq, Repr

def Side.name : Side → String
  | xOut => "x out"
  | xIn => "x in"
  | yOutInner => "y out indest"
  | yOutOuter => "y out outdest"
  | yInInner => "y in indest"
  | yInOuter => "y in outdest"

/-- Why a file cannot be read. -/
inductive FileFault where
  | missing | notDirectory | directory | badName | longName
deriving DecidableEq, Repr

/-- A directory can be opened, but not read. -/
def FileFault.message (path : String) : FileFault → String
  | missing => s!"open {path}: no such file or directory"
  | notDirectory => s!"open {path}: not a directory"
  | directory => s!"read {path}: is a directory"
  | badName => s!"open {path}: invalid argument"
  | longName => s!"open {path}: file name too long"

/-- What was going on when an error came up. -/
inductive Activity where
  | allReduce (ranks : List Int)
  | exchangeOnRank (rank : Int)
  | exchange
  | averaging
  | communicatingMetric
  | communicatingSymbols
  | coordinates (loc : Location)
  | option (key : String)
  | runningRank (rank : Int)
  | noDecomposition (nproc : Int)
  | reading (path : String)
  | readingGrid
  | task (name : String)
deriving DecidableEq, Repr

def Activity.message : Activity → String
  | allReduce ranks => s!"all-reduce over {Text.bracketed (ranks.map toString)}"
  | exchangeOnRank rank => s!"guard exchange on rank {rank}"
  | exchange => "guard exchange"
  | averaging => "averaging in y"
  | communicatingMetric => "communicating metric"
  | communicatingSymbols => "communicating Christoffel symbols"
  | coordinates loc => s!"coordinates at {loc.name}"
  | option key => s!"option {key}"
  | runningRank rank => s!"rank {rank}"
  | noDecomposition nproc => s!"no valid decomposition of {nproc} processors"
  | reading path => s!"parsing {path}"
  | readingGrid => "parsing grid file"
  | task name => name

inductive Error where
  | unknownLocation (label : String)
  | unknownMethod (key : String)
  | noTable (family : Family)
  | methodUnavailable (method : Method) (family : Family) (axis : String)
  | unknownOptionMethod (name : String) (family : Family)
  | notLinear (method : Method) (family : Family)
  | timeout (rank tag sender : Int) (pending : List Int)
  | sizeMismatch (rank tag sender : Int) (expected received : Nat)
  | requestConsumed
  | rankOutOfRange
  | badRank (use : RankUse) (rank : Int)
  | notAMember (rank : Int) (ranks : List Int)
  | worldSize (size : Int)
  | partitionCount (parts : Int)
  | config (cause : Misconfiguration)
  | handleConsumed
  | noNeighbour (sending : Bool) (side : Side)
  | variableMissing (name : String)
  | entryMissing (shape : VariableShape) (name : String)
  | fieldDimensions (extents : Extents)
  | storedAt (place : Placement)
  | shapesDiffer (op : String) (left right : Extents)
  | locationsDiffer (op : String) (left right : Location)
  | alignmentsDiffer (op : String)
  | vectorKindsDiffer (op : String)
  | componentLocations (x y z : Location)
  | outputNotReal (place : Placement)
  | staggeringOff (source target : Location)
  | tooFewGuards (family : Family) (method : Method) (axis : Axis) (width guards : Int)
  | flowShapesDiffer
  | flowOutput (axis : Axis) (output : Placement) (field : Location)
  | flowStaggeringOff (velocity field : Location)
  | flowLayout (axis : Axis) (velocity field : Location)
  | interpolationTarget (place : Placement)
  | zLength (length : String)
  | alreadyAligned
  | notAligned
  | transformExtents (field transform : Extents)
  | coordinatesPlace (place : Placement)
  | singularMetric (x y : Nat) (condition : String)
  | inexactInverse (deviation : String)
  | notFinite (name : String) (x y : Int)
  | notPositive (name : String) (x y : Int) (value : String)
  | zeroJacobian (x y : Int)
  | metricMismatch (metric field : Location)
  | noGridSize
  | unreadable (path : String) (fault : FileFault)
  | foreignHome
  | malformed (detail : String)
  | inOptions (cause : Error)
  | within (activity : Activity) (cause : Error)
  | both (first second : Error)
deriving DecidableEq, Repr

/-- The classes of error a caller can tell apart. -/
inductive ErrorClass where
  | timeout | sizeMismatch | requestConsumed | badRank | handleConsumed | noNeighbour
  | notFound | config | malformed
deriving DecidableEq, Repr

namespace ErrorClass

/-- In the order in which a mixed error is classified. -/
def all : List ErrorClass :=
  [timeout, sizeMismatch, requestConsumed, badRank, handleConsumed, noNeighbour, notFound,
    config, malformed]

/-- The wording every error of a class ends in. -/
def message : ErrorClass → String
  | timeout => "no matching message arrived"
  | sizeMismatch => "message size mismatch"
  | requestConsumed => "request already waited on"
  | badRank => "rank out of range"
  | handleConsumed => "communication handle already waited on"
  | noNeighbour => "no processor on that side"
  | notFound => "grid variable not found"
  | config => "invalid mesh configuration"
  | malformed => "malformed text"

end ErrorClass

namespace Error

/-- Whether an error is of a class, or was caused by one that is. -/
def isA (c : ErrorClass) : Error → Bool
  | timeout .. => c = .timeout
  | sizeMismatch .. => c = .sizeMismatch
  | requestConsumed => c = .requestConsumed
  | rankOutOfRange => c = .badRank
  | badRank .. => c = .badRank
  | handleConsumed => c = .handleConsumed
  | noNeighbour .. => c = .noNeighbour
  | variableMissing _ => c = .notFound
  | entryMissing .. => c = .notFound
  | config _ => c = .config
  | malformed _ => c = .malformed
  | inOptions cause => c = .config || isA c cause
  | within _ cause => isA c cause
  | both first second => isA c first || isA c second
  | _ => false

/-- The first class an error belongs to, none for a plain error. -/
def class? (e : Error) : Option ErrorClass := ErrorClass.all.find? fun c => e.isA c

def message : Error → String
  | unknownLocation label => s!"unknown cell location {Text.quoted label}"
  | unknownMethod key =>
    s!"unknown differencing method {Text.quoted key}, options are " ++
      Text.bracketed (sortedKeys Method.all)
  | noTable family => s!"no {family.key} differencing table"
  | methodUnavailable method family axis =>
    s!"method {method.key} is not available for {family.key} derivatives in {axis}, " ++
      s!"options are {Text.bracketed family.methodKeys}"
  | unknownOptionMethod name family =>
    s!"unknown method {Text.quoted name}, options are {Text.bracketed family.methodKeys}"
  | notLinear method family => s!"method {method.key} {family.key} is not a linear kernel"
  | timeout rank tag sender pending =>
    s!"rank {rank} waiting on tag {tag} from rank {sender} (pending tags " ++
      s!"{Text.bracketed (pending.map toString)}): {ErrorClass.timeout.message}"
  | sizeMismatch rank tag sender expected received =>
    s!"rank {rank} tag {tag} from rank {sender}, expected {expected} values, received " ++
      s!"{received}: {ErrorClass.sizeMismatch.message}"
  | requestConsumed => ErrorClass.requestConsumed.message
  | rankOutOfRange => ErrorClass.badRank.message
  | badRank use rank => s!"{use.message rank}: {ErrorClass.badRank.message}"
  | notAMember rank ranks =>
    s!"rank {rank} is not a member of communicator {Text.bracketed (ranks.map toString)}"
  | worldSize size => s!"world size must be positive, have {size}"
  | partitionCount parts => s!"partition count must be positive, have {parts}"
  | config cause => s!"{cause.message}: {ErrorClass.config.message}"
  | handleConsumed => ErrorClass.handleConsumed.message
  | noNeighbour sending side =>
    (if sending then "send " else "receive ") ++
      s!"{side.name}: {ErrorClass.noNeighbour.message}"
  | variableMissing name => s!"{name}: {ErrorClass.notFound.message}"
  | entryMissing shape name =>
    s!"{shape.name} {Text.quoted name}: {ErrorClass.notFound.message}"
  | fieldDimensions e => s!"field dimensions must be positive, have {e.nx} x {e.ny} x {e.nz}"
  | storedAt place => s!"a field cannot be stored at {place.name}"
  | shapesDiffer op left right => s!"{op}: field shapes differ, {left.text} and {right.text}"
  | locationsDiffer op left right =>
    s!"{op}: fields at different locations, {left.name} and {right.name}"
  | alignmentsDiffer op => s!"{op}: cannot combine field aligned and standard fields"
  | vectorKindsDiffer op =>
    s!"{op}: vectors must both be covariant or both contravariant, convert one first"
  | componentLocations x y z =>
    s!"vector components at inconsistent locations {x.name}, {y.name}, {z.name}"
  | outputNotReal place =>
    s!"derivative output at {place.name}: locations must be expanded before differencing"
  | staggeringOff source target =>
    s!"derivative from {source.name} to {target.name} needs StaggerGrids enabled"
  | tooFewGuards family method axis width guards =>
    s!"{family.key} method {method.key} along {axis.name} needs {width} guard cells, " ++
      s!"the mesh has {guards}"
  | flowShapesDiffer => "velocity and field shapes differ"
  | flowOutput axis output field =>
    s!"flow derivative along {axis.name}: output location {output.name} must equal the " ++
      s!"field location {field.name}"
  | flowStaggeringOff velocity field =>
    s!"velocity at {velocity.name} and field at {field.name} need StaggerGrids enabled"
  | flowLayout axis velocity field =>
    s!"unsupported flow derivative along {axis.name} with velocity at {velocity.name} " ++
      s!"and field at {field.name}"
  | interpolationTarget place => s!"cannot interpolate to {place.name}"
  | zLength length => s!"shifted metric needs a positive z length, have {length}"
  | alreadyAligned => "field is already field aligned"
  | notAligned => "field is not field aligned"
  | transformExtents field transform =>
    s!"field {field.text} does not match the shifted metric {transform.text}"
  | coordinatesPlace place => s!"coordinates cannot be located at {place.name}"
  | singularMetric x y condition =>
    s!"metric inversion failed at ({x}, {y}): matrix singular or near-singular with " ++
      s!"condition number {condition}"
  | inexactInverse deviation => s!"metric inversion error {deviation} exceeds tolerance"
  | notFinite name x y => s!"{name} is not finite at ({x}, {y})"
  | notPositive name x y value => s!"{name} is not positive at ({x}, {y}), {value}"
  | zeroJacobian x y => s!"J is zero at ({x}, {y})"
  | metricMismatch metric field =>
    s!"metric at {metric.name} does not match a field at {field.name}"
  | noGridSize => "no GridFile and no grid size given, need nx and ny"
  | unreadable path fault => fault.message path
  | foreignHome => "cannot expand user-specific home dir"
  | malformed detail => detail
  | inOptions cause => s!"{ErrorClass.config.message}: {message cause}"
  | within activity cause => s!"{activity.message}: {message cause}"
  | both first second => message first ++ "\n" ++ message second

/-- The joined error of a list, none if the list is empty. -/
def join? : List Error → Option Error
  | [] => none
  | e :: rest =>
    match join? rest with
    | none => some e
    | some r => some (both e r)

end Error

/-- The placement of a label, which is given by the user. -/
def Placement.ofLabel (label : String) : Except Error Placement :=
  match ofLabel? label with
  | some p => .ok p
  | none => .error (.unknownLocation label)

/-- The method of a key, which is given by the user. -/
def Method.ofKey (key : String) : Except Error Method :=
  match ofKey? key with
  | some m => .ok m
  | none => .error (.unknownMethod key)

/-- A family admits the methods of its table; the spectral one along z only. -/
def Family.admit (family : Family) (axis : Axis) (method : Method) : Except Error Unit :=
  if !family.isTable then .error (.noTable family)
  else if method ∈ family.methods ∧ (method = .fft → axis = .z) then .ok ()
  else .error (.methodUnavailable method family axis.name)

/-- How a computation can fail: with an error handed back, with an error raised on
misuse, or by an index that leaves its storage. -/
inductive Failure where
  | returned (e : Error)
  | raised (e : Error)
  | outOfRange
deriving DecidableEq, Repr

/-- Pure computations that may fail. -/
abbrev Outcome := Except Failure

namespace Outcome

def fail {β : Type} (e : Error) : Outcome β := .error (.returned e)

def raise {β : Type} (e : Error) : Outcome β := .error (.raised e)

def outOfRange {β : Type} : Outcome β := .error .outOfRange

end Outcome

/-- What an error on a rank is told as. -/
def Failure.onRank (rank : Int) : Failure → Failure
  | .returned e => .returned (.within (.runningRank rank) e)
  | f => f

/-- An error handed back counts as raised where nobody can act on it. -/
def Failure.escalate : Failure → Failure
  | .returned e => .raised e
  | f => f

end HaloMesh
