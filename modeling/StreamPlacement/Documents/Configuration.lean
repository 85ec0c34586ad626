import StreamPlacement.Audience.Group
import StreamPlacement.Documents.Document
import StreamPlacement.Monitor
import StreamPlacement.Workload.Scenario

/-!
The configuration as it is written: names of files, numbers that have not been checked, and defaults
for all that may be left out.
-/

namespace StreamPlacement

open Json

/-! ### Choices -/

/-- The names of the rules for groups. -/
def Grouping.names : List (String × Grouping) :=
  [("contentAware", .byContent), ("broadcastOnly", .byNetwork)]

/-- The names of the sources of byte counts. -/
def TrafficModel.names : List (String × TrafficModel) :=
  [("estimated", .estimated), ("trace", .recorded)]

/-- The name of a choice. -/
def writeChoice {β : Type} [DecidableEq β] (choices : List (String × β)) (value : β) : Json :=
  .string ((choices.find? (·.2 = value)).map Prod.fst)

instance : Document Grouping := ⟨choice? Grouping.names, writeChoice Grouping.names⟩
instance : Document TrafficModel := ⟨choice? TrafficModel.names, writeChoice TrafficModel.names⟩

/-! ### Parts -/

/-- The files that a topology is read from. -/
structure TopologyFiles where
  nodes : String
  links : String
  deriving DecidableEq, Repr

instance : Document TopologyFiles where
  read? value := do
    let given ← given? ["nodesFile", "linksFile"] value
    let nodes ← given.required "nodesFile" text?
    let links ← given.required "linksFile" text?
    pure { nodes, links }
  write files := record [("nodesFile", .ofText files.nodes), ("linksFile", .ofText files.links)]

/-- What to do against congestion, and how the solver is run. -/
structure ResolutionEntry where
  strategy : String := "greedy"
  interpreter : String := "python3"
  script : Option String := none
  blocking : Bool := true
  /-- How long to wait for an answer, in seconds. -/
  timeout : Option Float := none

instance : Document ResolutionEntry where
  read? value := do
    let given ← given? ["strategy", "interpreter", "script", "blocking", "timeoutS"] value
    let strategy ← given.required "strategy" text?
    let interpreter ← given.defaulted "interpreter" text? "python3"
    let script ← given.defaulted "script" (nullable? text?) none
    let blocking ← given.defaulted "blocking" bool? true
    let timeout ← given.defaulted "timeoutS" (nullable? float?) none
    pure { strategy, interpreter, script, blocking, timeout }
  write entry := record
    [("strategy", .ofText entry.strategy), ("interpreter", .ofText entry.interpreter),
      ("script", .ofOption .ofText entry.script), ("blocking", .bool entry.blocking),
      ("timeoutS", .ofOption .ofFloat entry.timeout)]

/-- A server that is declared from the start. -/
structure ServerEntry where
  node : NodeId
  /-- How many contents it may host; without it, as many as any server. -/
  capacity : Option Nat
  contents : List ContentId
  deriving DecidableEq, Repr

instance : Document ServerEntry where
  read? value := do
    let given ← given? ["node", "capacity", "contents"] value
    let node ← given.required "node" Document.read?
    let capacity ← given.optional "capacity" word?
    let contents ← given.defaulted "contents" (list? Document.read?) []
    pure { node, capacity, contents }
  write entry := record
    [("node", Document.write entry.node), ("capacity", .ofOption .natural entry.capacity),
      ("contents", .ofList Document.write entry.contents)]

/-- Two seconds between samples, the links' own capacities as limits. -/
def defaultMonitor : MonitorSettings Float := { interval := 2 }

instance : Document (MonitorSettings Float) where
  read? value := do
    let given ← given? ["intervalS", "thresholdMbps", "redirect", "traffic"] value
    let interval ← given.defaulted "intervalS" float? defaultMonitor.interval
    let threshold ← given.defaulted "thresholdMbps" (nullable? float?) defaultMonitor.threshold
    let redirect ← given.defaulted "redirect" bool? defaultMonitor.redirect
    let traffic ← given.defaulted "traffic" Document.read? defaultMonitor.traffic
    pure { interval, threshold, redirect, traffic }
  write settings := record
    [("intervalS", .ofFloat settings.interval),
      ("thresholdMbps", .ofOption .ofFloat settings.threshold),
      ("redirect", .bool settings.redirect), ("traffic", Document.write settings.traffic)]

/-- Ten seconds of arrivals for one content. -/
def defaultScenario : Scenario :=
  { seed := 0, startWindow := 10, contents := 1, zipfExponent := 0.7 }

instance : Document Scenario where
  read? value := do
    let given ← given? ["seed", "startWindowS", "contents", "zipfExponent"] value
    let seed ← given.defaulted "seed" word? defaultScenario.seed
    let startWindow ← given.defaulted "startWindowS" float? defaultScenario.startWindow
    let contents ← given.defaulted "contents" word? defaultScenario.contents
    let zipfExponent ← given.defaulted "zipfExponent" float? defaultScenario.zipfExponent
    pure { seed, startWindow, contents, zipfExponent }
  write scenario := record
    [("seed", .natural scenario.seed), ("startWindowS", .ofFloat scenario.startWindow),
      ("contents", .natural scenario.contents), ("zipfExponent", .ofFloat scenario.zipfExponent)]

/-! ### The whole -/

/-- A configuration as it is written. -/
structure Configuration where
  topology : TopologyFiles
  /-- The demand of one stream, in bit/s. -/
  unit : Float := Topology.defaultUnit
  grouping : Grouping := .byContent
  resolution : ResolutionEntry := {}
  origin : NodeId
  clientsPerAccessPoint : Nat := 1
  defaultCapacity : Nat := 10
  servers : List ServerEntry := []
  monitor : MonitorSettings Float := defaultMonitor
  /-- Whether a refused viewer makes room for itself. -/
  provision : Bool := true
  /-- The end of the run in seconds. -/
  stopTime : Float := 30
  /-- The file of a recorded workload. -/
  trace : Option String := none
  /-- A workload to be generated where none was recorded. -/
  scenario : Option Scenario := none

instance : Document Configuration where
  read? value := do
    let given ← given?
      ["topology", "perStreamUnit", "groupKey", "resolution", "originServer", "clientsPerAp",
        "defaultServerCapacity", "servers", "monitor", "provisionOnAdmissionFailure", "stopTimeS",
        "trace", "scenario"] value
    let topology ← given.required "topology" Document.read?
    let unit ← given.defaulted "perStreamUnit" float? Topology.defaultUnit
    let grouping ← given.defaulted "groupKey" Document.read? .byContent
    let resolution ← given.defaulted "resolution" Document.read? {}
    let origin ← given.required "originServer" Document.read?
    let clientsPerAccessPoint ← given.defaulted "clientsPerAp" word? 1
    let defaultCapacity ← given.defaulted "defaultServerCapacity" word? 10
    let servers ← given.defaulted "servers" (list? Document.read?) []
    let monitor ← given.defaulted "monitor" Document.read? defaultMonitor
    let provision ← given.defaulted "provisionOnAdmissionFailure" bool? true
    let stopTime ← given.defaulted "stopTimeS" float? 30
    let trace ← given.defaulted "trace" (nullable? text?) none
    let scenario ← given.defaulted "scenario" (nullable? Document.read?) none
    pure
      { topology, unit, grouping, resolution, origin, clientsPerAccessPoint, defaultCapacity
        servers, monitor, provision, stopTime, trace, scenario }
  write c := record
    [("topology", Document.write c.topology), ("perStreamUnit", .ofFloat c.unit),
      ("groupKey", Document.write c.grouping), ("resolution", Document.write c.resolution),
      ("originServer", Document.write c.origin),
      ("clientsPerAp", .natural c.clientsPerAccessPoint),
      ("defaultServerCapacity", .natural c.defaultCapacity),
      ("servers", .ofList Document.write c.servers), ("monitor", Document.write c.monitor),
      ("provisionOnAdmissionFailure", .bool c.provision), ("stopTimeS", .ofFloat c.stopTime),
      ("trace", .ofOption .ofText c.trace), ("scenario", .ofOption Document.write c.scenario)]

end StreamPlacement
