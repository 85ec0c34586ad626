import StreamPlacement.Placement.Relief
import StreamPlacement.Solver.Answer

/-!
Congestion handed to the solver. A request carries all groups; the answer is applied when it
arrives, as far as it makes sense by then, and the rest of it is skipped.
-/

namespace StreamPlacement

/-- Why an assignment of the solver was skipped. -/
inductive Skip
  | unknownGroup
  | unknownNode
  /-- The server at the node has no room for the content of the group. -/
  | noRoom
  | failed (fault : Fault)
  deriving DecidableEq

/-- How grave a skip is. That an answer is out of date is to be expected. -/
def Skip.severity : Skip → Severity
  | .failed fault => max .warning fault.severity
  | _ => .quiet

/-- What an answer of the solver brought about. -/
structure Completion where
  request : Solver.RequestId
  applied : List Relocation := []
  skipped : Nat := 0
  /-- How grave the gravest skip was. -/
  severity : Severity := .quiet
  deriving DecidableEq, Repr

/-- Counts an assignment that was skipped. -/
def Completion.skip (completion : Completion) (reason : Skip) : Completion :=
  { completion with
    skipped := completion.skipped + 1
    severity := max completion.severity reason.severity }

/-- Adds what an assignment that was applied has moved. -/
def Completion.add (completion : Completion) (relocation : Relocation) : Completion :=
  { completion with applied := completion.applied ++ [relocation] }

/-- What a congested link led to. -/
inductive Reaction
  | relieved (relief : Relief)
  | escalated (request : Solver.RequestId)
  deriving DecidableEq, Repr

namespace Placement

variable {α : Type} [Quantity α]

/-- All groups as the solver sees them. -/
def roster (p : Placement α) : List Solver.RosterEntry :=
  p.registry.groups.zipIdx.map fun (group, index) =>
    { accessPoint := group.accessPoint.index
      syntheticId := index + p.topology.size
      index
      viewers := group.size }

/-- Hands a congested link and all groups to the solver. Nothing changes if that fails. -/
def escalate (p : Placement α) (e : Edge) :
    Except Fault (Solver.RequestId × Placement α) :=
  match p.strategy with
  | .greedy => .error (.setting .strategyNotOptimizer)
  | .optimizer false => .error (.solver .closed)
  | .optimizer true =>
    let id := p.requests.size
    let request : Solver.Request :=
      { congested := (e.1.index, e.2.index), roster := p.roster }
    let tally :=
      { p.tally with
        congestionEvents := p.tally.congestionEvents + 1
        escalationsSubmitted := p.tally.escalationsSubmitted + 1 }
    .ok (id, { p with tally, requests := p.requests.push request, pending := p.pending ++ [id] })

/-- Applies one assignment: the server at the node takes the group's content on, and the group is
re-homed there. An assignment that names an unknown group or node, or a server without room, or
whose redirection fails, is skipped. -/
def assign (p : Placement α) (assignment : Solver.Assignment) :
    Placement α × Except Skip Relocation :=
  let id : GroupId := ⟨assignment.group⟩
  let node : NodeId := ⟨assignment.server⟩
  match p.registry.group? id with
  | none => (p, .error .unknownGroup)
  | some group =>
    if !p.topology.contains node then (p, .error .unknownNode)
    else match p.book.nodeAddress node with
      | .error fault => (p, .error (.failed fault))
      | .ok address =>
        let known := { p with servers := p.servers.ensure node address }
        match known.servers.take? node group.content with
        | none => (known, .error .noRoom)
        | some servers =>
          let (p, outcome) := { known with servers }.rehome id node fun p =>
            (p.registry.group? id).bind (·.route.currentEdge?)
          (p, outcome.mapError .failed)

/-- Applies assignments in order and collects what came of them. -/
def assignAll (p : Placement α) (completion : Completion)
    (assignments : List Solver.Assignment) : Placement α × Completion :=
  assignments.foldl (fun (p, completion) assignment =>
    match p.assign assignment with
    | (p, .ok relocation) => (p, completion.add relocation)
    | (p, .error reason) => (p, completion.skip reason)) (p, completion)

/-- Applies an answer of the solver. An answer to a request that is not awaited does nothing. -/
def complete (p : Placement α) (answer : Solver.Answer) : Placement α × Completion :=
  if p.pending.contains answer.request then
    let tally := { p.tally with escalationsCompleted := p.tally.escalationsCompleted + 1 }
    let awaited := { p with tally, pending := p.pending.erase answer.request }
    let (p, completion) := awaited.assignAll { request := answer.request } answer.assignments
    let tally :=
      { p.tally with
        assignmentsApplied := p.tally.assignmentsApplied + completion.applied.length
        assignmentsSkipped := p.tally.assignmentsSkipped + completion.skipped }
    ({ p with tally }, completion)
  else (p, { request := answer.request })

/-- Reacts to a congested edge as the strategy says. -/
def react (p : Placement α) (e : Edge) : Placement α × Except Fault Reaction :=
  match p.strategy with
  | .greedy =>
    let (p, relief) := p.relieve e
    (p, relief.map .relieved)
  | .optimizer _ =>
    match p.escalate e with
    | .error fault => (p, .error fault)
    | .ok (id, p) => (p, .ok (.escalated id))

end Placement

end StreamPlacement
