import StreamPlacement.Decimal.Layout
import StreamPlacement.Ident
import StreamPlacement.Severity

/-!
Everything that can go wrong, as causes, and the one place where each is put into words.
-/

namespace StreamPlacement

/-- Why a file could not be read as text. -/
inductive FileFault
  | missing
  | directory
  | notDirectory
  | notText
  | nameTooLong
  | nulInName
  deriving DecidableEq, Repr

/-- Why a topology, or an address in it, was refused. -/
inductive TopologyFault
  | nodeOutside (node : NodeId) (declared : Nat)
  | linkOutside (src dst : NodeId) (declared : Nat)
  | notBuilt
  | sparseIds (file : String) (index : Nat)
  | notAccessPoint (node : NodeId)
  | addressesExhausted (accessPoint : NodeId)
  deriving DecidableEq, Repr

/-- Why a row of a node or link listing was refused. -/
inductive RowFault
  | missingField (name : String)
  | invalidField (name text : String)
  | missingKind
  | unknownKind (tag : String)
  | shortClient (fields : Nat)
  | shortLink (fields : Nat)
  | rateNotPositive (rate : Float)
  | lossOutside (loss : Float)
  deriving DecidableEq

/-- Why a configuration was refused. -/
inductive SettingFault
  | unitNotPositive (unit : Float)
  | intervalNotPositive (interval : Float)
  | stopTimeNegative (stopTime : Float)
  | unknownStrategy (name : String)
  | scriptMissing
  | scriptMissingForOverride
  | timeoutNotPositive (timeout : Float)
  | originOutside (node : NodeId)
  | strategyNotOptimizer
  deriving DecidableEq

/-- Why a request to the solver brought no placement. -/
inductive SolverFault
  | cannotStart (program : String)
  /-- The program or its arguments contain what no command line can. -/
  | nulInArguments (program : String)
  | failed (text : String)
  | timedOut (seconds : Float)
  | closed
  deriving DecidableEq

/-- Why the program stops at once, whatever it is doing. -/
inductive Breakdown
  /-- A span of time that the clock cannot hold. -/
  | beyondClock
  /-- More places than memory has. -/
  | beyondMemory
  /-- A time that is to be drawn from a window without end. -/
  | endlessWindow
  deriving DecidableEq

/-- The cause of a failed operation. -/
inductive Fault
  | file (fault : FileFault)
  | malformedDocument
  | row (file : String) (line : Nat) (fault : RowFault)
  | unknownKind (tag : String)
  | topology (fault : TopologyFault)
  | noRoute (source dest : NodeId)
  | unknownNode (node : NodeId)
  | unknownClient (user : UserId)
  | unknownGroup (group : GroupId)
  | setting (fault : SettingFault)
  | solver (fault : SolverFault)
  | breakdown (cause : Breakdown)
  deriving DecidableEq

/-- The words for a file that cannot be read. -/
def FileFault.message : FileFault → String
  | .missing => "No such file or directory (os error 2)"
  | .directory => "Is a directory (os error 21)"
  | .notDirectory => "Not a directory (os error 20)"
  | .notText => "stream did not contain valid UTF-8"
  | .nameTooLong => "File name too long (os error 36)"
  | .nulInName => "file name contained an unexpected NUL byte"

def TopologyFault.message : TopologyFault → String
  | .nodeOutside node declared =>
    "node " ++ node.text ++ " is outside of the " ++ Nat.repr declared ++ " declared nodes"
  | .linkOutside src dst declared =>
    "link " ++ src.text ++ " -> " ++ dst.text ++ " references a node outside of the "
      ++ Nat.repr declared ++ " declared nodes"
  | .notBuilt => "adjacency has not been built"
  | .sparseIds file index =>
    "node ids in '" ++ file ++ "' must be dense from 0, id " ++ Nat.repr index
      ++ " is missing or duplicated"
  | .notAccessPoint node => "node " ++ node.text ++ " is not an access point"
  | .addressesExhausted accessPoint =>
    "address space of AP " ++ accessPoint.text ++ " is exhausted"

/-- The words for a tag that names no kind of node. -/
def unknownKindMessage (tag : String) : String := "Unknown node type tag: '" ++ tag ++ "'"

def RowFault.message : RowFault → String
  | .missingField name => "missing field '" ++ name ++ "'"
  | .invalidField name text => "invalid " ++ name ++ " '" ++ text ++ "'"
  | .missingKind => "missing node type"
  | .unknownKind tag => unknownKindMessage tag
  | .shortClient fields => "client row needs 7 fields, found " ++ Nat.repr fields
  | .shortLink fields => "link row needs 6 fields, found " ++ Nat.repr fields
  | .rateNotPositive rate => "rate must be positive, got " ++ Decimal.Layout.plain.text rate
  | .lossOutside loss => "loss must be within [0, 1], got " ++ Decimal.Layout.plain.text loss

def SettingFault.message : SettingFault → String
  | .unitNotPositive unit =>
    "perStreamUnit must be positive, got " ++ Decimal.Layout.plain.text unit
  | .intervalNotPositive interval =>
    "monitor.intervalS must be positive, got " ++ Decimal.Layout.plain.text interval
  | .stopTimeNegative stopTime =>
    "stopTimeS must not be negative, got " ++ Decimal.Layout.plain.text stopTime
  | .unknownStrategy name => "unknown resolution strategy '" ++ name ++ "'"
  | .scriptMissing => "the optimizer strategy needs 'resolution.script'"
  | .scriptMissingForOverride =>
    "the optimizer strategy needs 'resolution.script' in the configuration"
  | .timeoutNotPositive timeout =>
    "resolution.timeoutS must be positive, got " ++ Decimal.Layout.plain.text timeout
  | .originOutside node => "origin server " ++ node.text ++ " is not part of the topology"
  | .strategyNotOptimizer => "optimizer escalation requires the optimizer strategy"

def SolverFault.message : SolverFault → String
  | .cannotStart program =>
    "Optimizer process failed: could not start '" ++ program ++ "': " ++ FileFault.missing.message
  | .nulInArguments program =>
    "Optimizer process failed: could not start '" ++ program
      ++ "': nul byte found in provided data"
  | .failed text => "Optimizer process failed: " ++ text
  | .timedOut seconds => "Optimizer did not answer within " ++ Decimal.oneDecimal seconds ++ "s"
  | .closed => "Optimizer worker channel is closed"

def Breakdown.message : Breakdown → String
  | .beyondClock => "can not represent the span of time"
  | .beyondMemory => "capacity overflow"
  | .endlessWindow => "the window is not finite"

/-- The words of a fault. -/
def Fault.message : Fault → String
  | .file fault => "File not found or could not be read: " ++ fault.message
  | .malformedDocument => "Failed to parse JSON document"
  | .row listing line fault =>
    "Failed to parse topology file '" ++ listing ++ "' at line " ++ Nat.repr line ++ ": "
      ++ fault.message
  | .unknownKind tag => unknownKindMessage tag
  | .topology fault => "Invalid topology: " ++ fault.message
  | .noRoute source dest =>
    "No route exists between " ++ source.text ++ " and " ++ dest.text
      ++ "; the topology is disconnected"
  | .unknownNode node => "Unknown node: " ++ node.text
  | .unknownClient user => "Unknown client: " ++ user.text
  | .unknownGroup group => "Unknown group: " ++ group.text
  | .setting fault => "Invalid configuration: " ++ fault.message
  | .solver fault => fault.message
  | .breakdown cause => cause.message

/-- How grave a fault is where it arises. A missing route means that the network falls apart. -/
def Fault.severity : Fault → Severity
  | .noRoute _ _ => .error
  | _ => .quiet

end StreamPlacement
