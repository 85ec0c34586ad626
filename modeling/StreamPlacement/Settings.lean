import StreamPlacement.Arithmetic.Duration
import StreamPlacement.Documents.Configuration
import StreamPlacement.Files.Path
import StreamPlacement.Placement.State

/-!
The configuration as the program uses it: checked, with paths that no longer depend on where the
configuration lies.
-/

namespace StreamPlacement

/-- What to do against congestion. -/
inductive Resolution
  | greedy
  /-- Ask a solver: a program, the script it is given, whether every answer is waited for before the
  next event, and how long an answer may take. -/
  | optimizer (interpreter script : String) (blocking : Bool) (timeout : Option Duration)
  deriving DecidableEq, Repr

def Resolution.kind : Resolution → StrategyKind
  | .greedy => .greedy
  | .optimizer .. => .optimizer

/-- A configuration that has been checked. -/
structure Settings where
  nodesFile : String
  linksFile : String
  unit : Float
  grouping : Grouping
  resolution : Resolution
  origin : NodeId
  clientsPerAccessPoint : Nat
  defaultCapacity : Nat
  servers : List ServerEntry
  monitor : MonitorSettings Float
  provision : Bool
  stopTime : Float
  traceFile : Option String
  scenario : Option Scenario

namespace Settings

/-- Refuses a configuration with a fault. -/
def refuse {β : Type} (fault : SettingFault) : Except Fault β := .error (.setting fault)

/-- The time that a solver may take. -/
def timeoutOf : Option Float → Except Fault (Option Duration)
  | none => .ok none
  | some seconds =>
    if 0 < seconds then (Duration.ofSeconds seconds).map some
    else refuse (.timeoutNotPositive seconds)

/-- The checked form of what to do against congestion. The solver's settings do not matter where it
is not asked. -/
def resolutionOf (directory : String) (entry : ResolutionEntry) : Except Fault Resolution := do
  match ← StrategyKind.ofName entry.strategy with
  | .greedy => pure .greedy
  | .optimizer =>
    match entry.script with
    | none => refuse .scriptMissing
    | some script =>
      let timeout ← timeoutOf entry.timeout
      pure (.optimizer entry.interpreter (Path.join directory script) entry.blocking timeout)

/-- A workload that can be generated: a window that is not negative, and at least one content. -/
def scenarioOf (scenario : Scenario) : Scenario :=
  { scenario with
    startWindow := Quantity.atLeastZero scenario.startWindow
    contents := max scenario.contents 1 }

/-- Checks a configuration. Relative paths in it start at `directory`. -/
def ofConfiguration (directory : String) (c : Configuration) : Except Fault Settings := do
  if 0 < c.unit then pure () else refuse (.unitNotPositive c.unit)
  if 0 < c.monitor.interval then pure () else refuse (.intervalNotPositive c.monitor.interval)
  if c.stopTime < 0 then refuse (.stopTimeNegative c.stopTime)
  let resolution ← resolutionOf directory c.resolution
  pure
    { nodesFile := Path.join directory c.topology.nodes
      linksFile := Path.join directory c.topology.links
      unit := c.unit
      grouping := c.grouping
      resolution
      origin := c.origin
      clientsPerAccessPoint := c.clientsPerAccessPoint
      defaultCapacity := c.defaultCapacity
      servers := c.servers
      monitor := c.monitor
      provision := c.provision
      stopTime := c.stopTime
      traceFile := c.trace.map (Path.join directory)
      scenario := c.scenario.map scenarioOf }

/-- Replaces the strategy by name. The optimizer has to be configured already. -/
def overrideStrategy (settings : Settings) (name : String) : Except Fault Settings := do
  match ← StrategyKind.ofName name, settings.resolution.kind with
  | .greedy, _ => pure { settings with resolution := .greedy }
  | .optimizer, .optimizer => pure settings
  | .optimizer, .greedy => refuse .scriptMissingForOverride

/-- Replaces the recorded workload. -/
def replaceTrace (settings : Settings) (file : String) : Settings :=
  { settings with traceFile := some file }

/-- Replaces the seed of the generated workload, if there is one. -/
def replaceSeed (settings : Settings) (seed : Nat) : Settings :=
  { settings with scenario := settings.scenario.map ({ · with seed }) }

end Settings

end StreamPlacement
