import StreamPlacement.Backhaul.Listing
import StreamPlacement.Documents.Trace
import StreamPlacement.Files.Reader
import StreamPlacement.Settings
import StreamPlacement.Simulation.Engine
import StreamPlacement.Solver.Program

/-!
Building a control plane from its settings: the topology and the addresses on it, the viewers, the
servers, the workload and the solver, in this order. The first fault ends it.
-/

namespace StreamPlacement

namespace Listing

variable {m : Type → Type} [Monad m]

/-- The topology in two files. The links are not looked at before the nodes are known to be good. -/
def readTopology (files : FileReader m) (nodesFile linksFile : String) (unit : Float) :
    ExceptT Fault m (Topology Float) := do
  let nodes ← nodes nodesFile (← files.text nodesFile)
  let links ← links linksFile (← files.text linksFile)
  topology unit nodes links

end Listing

namespace Settings

/-- The number of contents that a declared server has room for. -/
def capacityOf (settings : Settings) (entry : ServerEntry) : Nat :=
  entry.capacity.getD settings.defaultCapacity

/-- The pool with the origin and the servers that are declared, each in place of one before it at
the same node. -/
def serverPool (settings : Settings) (book : AddressBook) : Except Fault ServerPool := do
  let pool : ServerPool := { defaultCapacity := settings.defaultCapacity }
  let pool := pool.registerOrigin settings.origin (← book.nodeAddress settings.origin)
  settings.servers.foldlM (fun pool entry => do
    let address ← book.nodeAddress entry.node
    pure (pool.register entry.node address (settings.capacityOf entry) entry.contents)) pool

/-- The addresses on a topology, with the viewers attached. -/
def bookOn (settings : Settings) (t : Topology Float) : Except Fault AddressBook := do
  if t.contains settings.origin then pure () else refuse (.originOutside settings.origin)
  AddressBook.populated t settings.clientsPerAccessPoint

/-- The placement over a topology before anything happened, with the viewers attached. -/
def placementOn (settings : Settings) (t : Topology Float) : Except Fault (Placement Float) := do
  let book ← settings.bookOn t
  let servers ← settings.serverPool book
  let strategy : Strategy := match settings.resolution with
    | .greedy => .greedy
    | .optimizer .. => .optimizer true
  pure (.start t book servers settings.grouping strategy)

/-- How grave the oddities in a setup are: nodes without links, and servers that are declared with
more contents than they have room for. What comes behind the first fault is not looked at. -/
def oddity (settings : Settings) (t : Topology Float) : Severity :=
  if t.contains settings.origin && t.nodes.any (t.isIsolated ·.id) then .warning
  else match settings.bookOn t with
    | .error _ => .quiet
    | .ok book =>
      let declared := settings.servers.takeWhile fun entry => (book.nodeAddress entry.node).toBool
      if declared.any fun entry => settings.capacityOf entry < entry.contents.eraseDups.length
      then .warning else .quiet

/-- What the event loop is told. -/
def runSettings (settings : Settings) : RunSettings Float where
  origin := settings.origin
  stopTime := settings.stopTime
  provision := settings.provision
  traffic := settings.monitor.traffic
  blocking := match settings.resolution with
    | .greedy => false
    | .optimizer _ _ blocking _ => blocking

variable {m : Type → Type} [Monad m]

/-- The solver, where it is asked. Its answers are there at once, so that they are never late. What
it may read is read beforehand: its script, and the files whose names are numbers below `bound`. -/
def worker (settings : Settings) (files : FileReader m) (bound : Nat) :
    m (Option Solver.Worker) :=
  match settings.resolution with
  | .greedy => pure none
  | .optimizer interpreter script _ _ => do
    let names := if interpreter = Solver.printer then script :: (List.range bound).map Nat.repr
      else []
    let known ← names.filterMapM fun name => do
      pure ((← files.bytes name).toOption.map fun bytes => (name, bytes))
    pure (some { solve := fun _ => Solver.Reply.ofProgram interpreter script (known.lookup ·) })

/-- The recorded workload, or else the generated one, or else nothing. -/
def workload (settings : Settings) (files : FileReader m) (book : AddressBook) :
    ExceptT Fault m (List (TimedEvent Float)) :=
  match settings.traceFile, settings.scenario with
  | some file, _ => do
    let trace : Trace ← files.document file
    pure trace.timed
  | none, some scenario => scenario.workload (book.clients.toList.map Attachment.user)
  | none, none => pure []

/-- The topology that the settings name. -/
def topology (settings : Settings) (files : FileReader m) : ExceptT Fault m (Topology Float) :=
  Listing.readTopology files settings.nodesFile settings.linksFile settings.unit

/-- The control plane over a topology, ready to run. Every number in a request to the solver is one
of a node, or counts groups or viewers, of which there are no more than events, or is a group's
number beyond those of the nodes. -/
def buildOn (settings : Settings) (files : FileReader m) (t : Topology Float) :
    ExceptT Fault m (Simulation Float) := do
  let placement ← settings.placementOn t
  let monitor := { settings := settings.monitor : Monitor Float }.registerAll t placement.book
  let events ← settings.workload files placement.book
  let worker ← (settings.worker files (t.size + events.length + 1) : m (Option Solver.Worker))
  pure ((Simulation.start placement monitor worker settings.runSettings).scheduleAll events)

/-- The control plane over the topology that the settings name, ready to run. -/
def build (settings : Settings) (files : FileReader m) : ExceptT Fault m (Simulation Float) := do
  settings.buildOn files (← settings.topology files)

/-- The settings in a configuration file. Relative paths in it start at its own directory. -/
def load (files : FileReader m) (path : String) : ExceptT Fault m Settings := do
  let configuration : Configuration ← files.document path
  ofConfiguration (Path.parent path) configuration

end Settings

end StreamPlacement
