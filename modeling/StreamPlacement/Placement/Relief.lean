import StreamPlacement.Placement.Plan
import StreamPlacement.Placement.Redirection

/-!
The greedy reaction to congestion: what is booked on the link is forgotten, and every group that
uses it is re-homed by plan.
-/

namespace StreamPlacement

/-- What was done about a congested link. -/
structure Relief where
  edge : Edge
  candidates : List GroupId
  relocations : List Relocation
  deriving DecidableEq, Repr

/-- The edge on which a decision books its groups. -/
def PlacementReason.edge? : PlacementReason → Option Edge
  | .coLocated edge => some edge
  | .exhausted => none

namespace Placement

variable {α : Type} [Quantity α]

/-- Re-homes some groups at one node, up to the first that fails. -/
def rehomeAll (node : NodeId) (edge : Option Edge) :
    List GroupId → Placement α → Placement α × Except Fault (List Relocation)
  | [], p => (p, .ok [])
  | id :: rest, p =>
    match p.rehome id node (fun _ => edge) with
    | (p, .error fault) => (p, .error fault)
    | (p, .ok relocation) =>
      let (p, more) := rehomeAll node edge rest p
      (p, more.map (relocation :: ·))

/-- Carries out one decision, and marks a server at its node as chosen. -/
def carryOut (p : Placement α) (decision : Decision) :
    Placement α × Except Fault (List Relocation) :=
  match rehomeAll decision.node decision.reason.edge? decision.groups p with
  | (p, .error fault) => (p, .error fault)
  | (p, .ok relocations) =>
    match p.book.nodeAddress decision.node with
    | .error fault => (p, .error fault)
    | .ok address =>
      ({ p with servers := (p.servers.warm decision.node address).2 }, .ok relocations)

/-- Carries out decisions in order, up to the first that fails. -/
def carryOutAll :
    List Decision → Placement α → Placement α × Except Fault (List Relocation)
  | [], p => (p, .ok [])
  | decision :: rest, p =>
    match p.carryOut decision with
    | (p, .error fault) => (p, .error fault)
    | (p, .ok relocations) =>
      let (p, more) := carryOutAll rest p
      (p, more.map (relocations ++ ·))

/-- Plans new serving nodes for some groups and moves the groups there. -/
def reallocate (p : Placement α) (candidates : List GroupId) :
    Placement α × Except Fault (List Relocation) :=
  carryOutAll (plan p.topology p.registry.groups candidates) p

/-- Forgets what is booked on a directed edge, in the topology and in the groups. -/
def clearEdge (p : Placement α) (e : Edge) : Placement α :=
  { p with
    topology := p.topology.reset e
    registry := p.registry.clearBookings e
    tally := { p.tally with congestionEvents := p.tally.congestionEvents + 1 } }

/-- Clears a congested edge and re-homes every group that uses its link. -/
def relieve (p : Placement α) (e : Edge) : Placement α × Except Fault Relief :=
  let cleared := p.clearEdge e
  let candidates := cleared.registry.traversing e
  let (p, relocations) := cleared.reallocate candidates
  (p, relocations.map fun relocations => { edge := e, candidates, relocations })

end Placement

end StreamPlacement
