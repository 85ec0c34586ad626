import StreamPlacement.Monitor
import StreamPlacement.Placement.Admission
import StreamPlacement.Simulation.Agenda
import StreamPlacement.Solver.Worker

/-!
The event loop. Arrivals, traffic and monitor ticks are handled strictly in order of time, each to
its end before the next; the solver's answers are applied between events.
-/

namespace StreamPlacement

/-- What the event loop itself can be told. -/
structure RunSettings (α : Type) where
  /-- The server that viewers ask where they name none. -/
  origin : NodeId
  /-- Events after this time in seconds are left alone. -/
  stopTime : α
  /-- Whether a refused viewer makes room for itself. -/
  provision : Bool := true
  traffic : TrafficModel := .estimated
  /-- Whether every answer of the solver is waited for before the next event. -/
  blocking : Bool := false

/-- A control plane in the middle of a run. -/
structure Simulation (α : Type) where
  placement : Placement α
  monitor : Monitor α
  agenda : Agenda
  /-- The solver, where the strategy has one. -/
  worker : Option Solver.Worker := none
  settings : RunSettings α
  processed : Nat := 0
  /-- How grave the gravest thing was that came up in the answers so far. -/
  severity : Severity := .quiet

/-- What a run has come to. -/
structure Summary (α : Type) where
  eventsProcessed : Nat
  simulatedTime : α
  groups : Nat
  users : Nat
  redirections : Nat
  servers : Nat
  tally : Tally

/-- How a run ends. -/
inductive RunResult (α : Type)
  | finished (summary : Summary α)
  | failed (fault : Fault)
  /-- The ticks never get past one millisecond, so the run has no end. -/
  | endless

namespace Simulation

variable {α : Type} [Quantity α]

/-- The control plane before its first event: the first tick is one interval away. -/
def start (placement : Placement α) (monitor : Monitor α) (worker : Option Solver.Worker)
    (settings : RunSettings α) : Simulation α :=
  { placement, monitor, worker, settings
    agenda := ({} : Agenda).enterAt monitor.settings.interval .tick }

/-- Enters an event. -/
def schedule (s : Simulation α) (timed : TimedEvent α) : Simulation α :=
  { s with agenda := s.agenda.enterAt timed.time timed.event }

def scheduleAll (s : Simulation α) (events : List (TimedEvent α)) : Simulation α :=
  events.foldl schedule s

/-- What the run has come to so far. -/
def summary (s : Simulation α) : Summary α where
  eventsProcessed := s.processed
  simulatedTime := s.agenda.now
  groups := s.placement.registry.size
  users := s.placement.registry.viewers
  redirections := s.placement.directory.size
  servers := s.placement.servers.size
  tally := s.placement.tally

/-- Switches on every server that was chosen. -/
def activate (s : Simulation α) : Simulation α :=
  { s with placement := s.placement.activate.2 }

/-! ### Traffic -/

/-- The bytes that a demand in bit/s makes in one interval. -/
def intervalBytes (s : Simulation α) (demand : α) : Nat :=
  Quantity.truncate (demand * s.monitor.settings.interval / Quantity.ofNat 8)

/-- Counts the demand of the groups on every link, link by link. -/
def feedEstimate (s : Simulation α) : Simulation α :=
  let monitor := s.placement.topology.links.foldl (fun m link =>
    let demand := s.placement.linkDemand link.edge
    if 0 < demand then (m.recordLink s.placement.book link.edge (s.intervalBytes demand)).2
    else m) s.monitor
  { s with monitor }

/-! ### Events -/

/-- Admits a viewer. If the first hop is full and room shall be made, its edge is reacted to and the
chosen servers are switched on. -/
def arrive (s : Simulation α) (user : UserId) (content : ContentId) (server : Option NodeId) :
    Simulation α × Except Fault Unit :=
  match s.placement.book.client? user with
  | none => (s, .error (.unknownClient user))
  | some attachment =>
    let requested := server.getD s.settings.origin
    match s.placement.admitViewer attachment.accessPoint requested content user with
    | .error fault => (s, .error fault)
    | .ok (.accepted _ _, placement) => ({ s with placement }, .ok ())
    | .ok (.exceeded _ e, placement) =>
      if s.settings.provision then
        match placement.react e with
        | (placement, .error fault) => ({ s with placement }, .error fault)
        | (placement, .ok _) => ({ s with placement }.activate, .ok ())
      else ({ s with placement }, .ok ())

/-- Ends a monitor interval. If groups were re-homed the chosen servers are switched on, and the
next tick is entered unless it would come after the stop time. -/
def endInterval (s : Simulation α) : Simulation α :=
  let s := if s.settings.traffic = .estimated then s.feedEstimate else s
  let (reactions, monitor, placement) := s.monitor.tick s.placement
  let s := { s with monitor, placement }
  let relieved := reactions.any fun
    | .relieved _ => true
    | .escalated _ => false
  let s := if relieved then s.activate else s
  let interval := s.monitor.settings.interval
  if s.agenda.now + interval ≤ s.settings.stopTime then
    { s with agenda := s.agenda.enterIn interval .tick }
  else s

/-- Handles one event. -/
def dispatch (s : Simulation α) : Event → Simulation α × Except Fault Unit
  | .arrival user content server => s.arrive user content server
  | .traffic e bytes =>
    ({ s with monitor := (s.monitor.recordLink s.placement.book e bytes).2 }, .ok ())
  | .tick => (s.endInterval, .ok ())
  | .activation => (s.activate, .ok ())

/-! ### Answers of the solver -/

/-- Applies one answer. If groups were re-homed the chosen servers are switched on. -/
def apply (s : Simulation α) (answer : Solver.Answer) : Simulation α :=
  let (placement, completion) := s.placement.complete answer
  let severity := max s.severity (max answer.severity completion.severity)
  let s := { s with placement, severity }
  if completion.applied.isEmpty then s else s.activate

/-- The next answer: one that is there already or, if answers are awaited and `wait` is set, the
next one to come. -/
def nextAnswer? (s : Simulation α) (wait : Bool) : Option (Solver.Answer × Simulation α) :=
  s.worker.bind fun worker =>
    let next :=
      if wait && !s.placement.pending.isEmpty then worker.wait s.placement.requests
      else worker.poll
    next.map fun (answer, worker) => (answer, { s with worker := some worker })

/-- Applies answers until none is left to take, at most `count` of them. -/
def collectUpTo (wait : Bool) : Nat → Simulation α → Simulation α
  | 0, s => s
  | count + 1, s =>
    match s.nextAnswer? wait with
    | none => s
    | some (answer, s) => collectUpTo wait count (s.apply answer)

/-- The number of answers that have not been taken. -/
def outstanding (s : Simulation α) : Nat :=
  match s.worker with
  | none => 0
  | some worker =>
    s.placement.requests.size - worker.started + worker.unfinished.toList.length
      + worker.ready.length

/-- Applies answers until none is left to take. There are never more than were asked for. -/
def collect (s : Simulation α) (wait : Bool) : Simulation α := collectUpTo wait s.outstanding s

/-! ### Runs -/

/-- One turn of the loop: the soonest event is handled, unless it comes after the stop time, and the
answers of the solver are applied. Nothing is returned when the loop is over. -/
def step? (s : Simulation α) : Option (Simulation α × Except Fault Unit) :=
  match s.agenda.pop? with
  | none => none
  | some (next, agenda) =>
    if s.settings.stopTime < Agenda.seconds next.time then none
    else
      match { s with agenda }.dispatch next.event with
      | (s, .error fault) => some (s, .error fault)
      | (s, .ok ()) =>
        some ({ s with processed := s.processed + 1 }.collect s.settings.blocking, .ok ())

/-- Turns the loop at most `turns` times. -/
def runFor : Nat → Simulation α → Simulation α × RunResult α
  | 0, s => (s, .endless)
  | turns + 1, s =>
    match s.step? with
    | none =>
      let s := s.collect true
      (s, .finished s.summary)
    | some (s, .error fault) => (s, .failed fault)
    | some (s, .ok ()) => runFor turns s

/-- Runs to the end. Every turn takes an event off the agenda, and only ticks enter new ones, one
each. Unless they never get past one millisecond, there are no more turns than this before the loop
is over. -/
def run (s : Simulation α) : Simulation α × RunResult α :=
  runFor ((s.agenda.size + 1) * (s.agenda.size + 1) * (wordMax + 1)) s

end Simulation

end StreamPlacement
