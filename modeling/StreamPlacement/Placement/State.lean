import StreamPlacement.Audience.Registry
import StreamPlacement.Cache.Server
import StreamPlacement.Solver.Request

/-!
All placement state: the topology with what is booked on it, the groups, the directory and the
servers. The operations on it are in the modules beside this one; each takes the state and returns
the next, also where it fails.
-/

namespace StreamPlacement

/-- The names of the strategies against congestion. -/
inductive StrategyKind
  | greedy
  | optimizer
  deriving DecidableEq, Repr, Inhabited

/-- The names that a configuration may use for a strategy. -/
def StrategyKind.names : StrategyKind → List String
  | .greedy => ["greedy", "QoSGreedy"]
  | .optimizer => ["optimizer", "ILPSolution"]

/-- The strategy that a name stands for. -/
def StrategyKind.ofName (name : String) : Except Fault StrategyKind :=
  match [StrategyKind.greedy, .optimizer].find? (·.names.contains name) with
  | some kind => .ok kind
  | none => .error (.setting (.unknownStrategy name))

/-- How a congested link is reacted to. -/
inductive Strategy
  /-- Re-home the groups on the link at once. -/
  | greedy
  /-- Ask the solver; its answer is applied when it arrives. A solver that is gone takes no
  requests. -/
  | optimizer (listening : Bool)
  deriving DecidableEq, Repr

def Strategy.kind : Strategy → StrategyKind
  | .greedy => .greedy
  | .optimizer _ => .optimizer

/-- How often each kind of thing has happened. -/
structure Tally where
  admitted : Nat := 0
  refused : Nat := 0
  congestionEvents : Nat := 0
  relocations : Nat := 0
  escalationsSubmitted : Nat := 0
  escalationsCompleted : Nat := 0
  assignmentsApplied : Nat := 0
  assignmentsSkipped : Nat := 0
  serversActivated : Nat := 0
  deriving DecidableEq, Repr

/-- The state of placement. -/
structure Placement (α : Type) where
  topology : Topology α
  book : AddressBook
  registry : Registry
  directory : Directory := ∅
  servers : ServerPool
  strategy : Strategy
  tally : Tally := {}
  /-- All requests that were handed to the solver, in order. -/
  requests : Array Solver.Request := #[]
  /-- The requests whose answer is awaited, in order. -/
  pending : List Solver.RequestId := []

namespace Placement

variable {α : Type}

/-- The state before anything happened. -/
def start (topology : Topology α) (book : AddressBook) (servers : ServerPool)
    (grouping : Grouping) (strategy : Strategy) : Placement α :=
  { topology, book, servers, strategy, registry := { grouping } }

/-! ### Questions -/

/-- The address that a viewer should fetch a content from. -/
def serverFor? (p : Placement α) (user : UserId) (content : ContentId) : Option Address :=
  (p.book.client? user).bind fun attachment =>
    p.directory.get? (p.registry.grouping.keyFor attachment.broadcast content)

/-- The demand of all groups whose route uses the link between the ends of `e`, in bit/s. -/
def linkDemand [Quantity α] (p : Placement α) (e : Edge) : α :=
  ((p.registry.groups.filter (·.route.traversesLink e)).map (·.demand p.topology.unit)).foldl
    (· + ·) 0

/-! ### Servers -/

/-- Switches on every server that is not. -/
def activate (p : Placement α) : List NodeId × Placement α :=
  let (activated, servers) := p.servers.activate
  let tally :=
    { p.tally with serversActivated := p.tally.serversActivated + activated.length }
  (activated, { p with servers, tally })

end Placement

end StreamPlacement
