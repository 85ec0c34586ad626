import StreamPlacement.CommandLine.Arguments
import StreamPlacement.CommandLine.Complaint
import StreamPlacement.CommandLine.LogLevel
import StreamPlacement.Backhaul.ShortestRoute
import StreamPlacement.Files.Memory
import StreamPlacement.Json.Render
import StreamPlacement.Simulation.Report
import StreamPlacement.Simulation.Setup

/-!
The program behind the command line, on any files.
-/

namespace StreamPlacement.CommandLine

/-- The name and the version of the program. -/
def versionLine : String := "backhaul-placement 0.1.0"

/-- How the program ends. -/
structure Outcome where
  code : Nat
  output : String := ""
  complaint : Option Complaint := none
  /-- How grave the gravest thing was that came up. -/
  severity : Severity := .quiet
  /-- Whether nothing was told on the way, so that the error stream has only the complaint. -/
  silent : Bool := false

namespace Outcome

/-- What was asked for has been printed. -/
def success (output : String) : Outcome := { code := 0, output := output ++ "\n" }

/-- The arguments are not understood. -/
def misuse : Outcome := { code := 2 }

def failure (complaint : Complaint) : Outcome := { code := 1, complaint := some complaint }

/-- An outcome behind things that came up before it. -/
def behind (severity : Severity) (outcome : Outcome) : Outcome :=
  { outcome with severity := max severity outcome.severity }

/-- What was being done, if it is to be told, failed. A breakdown
leaves no complaint of its own. -/
def ofFault (activity : Option String) (fault : Fault) : Outcome :=
  match fault, activity with
  | .breakdown _, _ => { code := 101 }
  | fault, some activity => (failure (.within activity fault)).behind fault.severity
  | fault, none => (failure (.ofFault fault)).behind fault.severity

/-- How a run ends. -/
def ofResult : RunResult Float → Outcome
  | .finished summary => success (summary.report.text .spread)
  | .failed fault => ofFault none fault
  | .endless => failure ⟨"the run has no end", []⟩

/-- The outcome of a run from its start on. -/
def ofRun (simulation : Simulation Float) : Outcome :=
  let (after, result) := simulation.run
  (ofResult result).behind after.severity

end Outcome

variable {m : Type → Type} [Monad m]

/-- Carries on with what some activity brings about. -/
def proceed {β : Type} (activity : Option String) (action : ExceptT Fault m β)
    (next : β → m Outcome) : m Outcome := do
  match ← action.run with
  | .ok value => next value
  | .error fault => pure (.ofFault activity fault)

/-- The settings with what the command line puts in their place. -/
def Command.adjust (settings : Settings) (trace strategy : Option String) (seed : Option Nat) :
    Except Fault Settings := do
  let settings := match trace with
    | some file => settings.replaceTrace file
    | none => settings
  let settings ← match strategy with
    | some name => settings.overrideStrategy name
    | none => pure settings
  pure (match seed with
    | some seed => settings.replaceSeed seed
    | none => settings)

/-- What is being done before a run. -/
def building : String := "building the control plane"

/-- Carries out a command, and tells of its course. -/
def Command.perform (files : FileReader m) (tell : String → m Unit) : Command → m Outcome
  | .run config trace strategy seed =>
    proceed (some ("loading configuration '" ++ config ++ "'")) (Settings.load files config)
      fun settings => do
    tell ("Configuration loaded from '" ++ config ++ "'.")
    proceed none (liftExcept (Command.adjust settings trace strategy seed)) fun settings =>
    proceed (some building) (settings.topology files) fun t => do
      let outcome ← proceed (some building) (settings.buildOn files t) fun simulation =>
        pure (.ofRun simulation)
      pure (outcome.behind (settings.oddity t))
  | .route nodes links source dest =>
    proceed none (Listing.readTopology files nodes links Topology.defaultUnit) fun t =>
    proceed none (liftExcept (t.route source dest)) fun route =>
    pure (.success route.text)
where
  liftExcept {β : Type} (result : Except Fault β) : ExceptT Fault m β := ExceptT.mk (pure result)

/-- A log level that is not one. -/
def invalidLevel (text : String) : Complaint :=
  ⟨"invalid log level '" ++ text ++ "'",
    ["attempted to convert a string that doesn't match an existing log level"]⟩

/-- The log level of a text, or the one that holds where none is given. -/
def logLevel : Option String → Except Complaint LogLevel
  | none => .ok .default
  | some text =>
    match LogLevel.ofText? text with
    | some level => .ok level
    | none => .error (invalidLevel text)

/-- The file that keeps what was told. -/
def journalFile : String := "logs/placement.log"

/-- Does what the arguments ask for. Nothing is told before the log level is known to be one; then
the journal is started, before any other file is looked at. Without a journal no outcome is silent.
-/
def perform (files : FileReader m) (journal : Journal m) (arguments : List String) : m Outcome :=
  match Order.ofArguments? arguments with
  | none => pure .misuse
  | some .tellVersion => pure (.success versionLine)
  | some (.obey level command) =>
    match logLevel level with
    | .error complaint => pure { Outcome.failure complaint with silent := true }
    | .ok level => do
      let kept ← journal.start
      let tell line := if level.isSilent .quiet then pure () else journal.tell line
      tell "The program has started."
      let outcome ← command.perform files tell
      pure { outcome with silent := kept && level.isSilent outcome.severity }

/-- Does what the arguments ask for on files in memory. -/
def performInMemory (files : MemoryFiles) (arguments : List String) : Outcome :=
  ((perform MemoryFiles.current (MemoryFiles.journal journalFile) arguments).run files).1

end StreamPlacement.CommandLine
