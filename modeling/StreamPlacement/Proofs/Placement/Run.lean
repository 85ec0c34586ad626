import StreamPlacement.Placement.Admission
import StreamPlacement.Placement.Escalation
import StreamPlacement.Proofs.Backhaul.Addresses
import StreamPlacement.Proofs.Backhaul.Walk

/-!
Runs of placement: from a deployment, any operations in any order.

Nothing is asked of the operations. Their arguments may name nodes, groups, viewers and requests
that do not exist, and an operation that fails is part of the run like any other, with whatever it
has left behind.
-/

namespace StreamPlacement

variable {α : Type} [Quantity α]

/-- What can be asked of placement, or happen to it. -/
inductive Operation
  | arrive (accessPoint requested : NodeId) (content : ContentId) (user : UserId)
  | react (e : Edge)
  | relieve (e : Edge)
  | reallocate (candidates : List GroupId)
  | escalate (e : Edge)
  | complete (answer : Solver.Answer)
  | activate
  /-- From now on the solver takes no requests. -/
  | hangUp
  deriving DecidableEq

/-- A strategy whose solver, if it has one, is gone. -/
def Strategy.hungUp : Strategy → Strategy
  | .greedy => .greedy
  | .optimizer _ => .optimizer false

/-- The group that a viewer was put into. -/
def Admission.group : Admission → GroupId
  | .accepted group _ => group
  | .exceeded group _ => group

namespace Placement

/-- The state after one operation, which may have failed. -/
def perform (p : Placement α) : Operation → Placement α
  | .arrive accessPoint requested content user =>
    match p.admitViewer accessPoint requested content user with
    | .ok (_, next) => next
    | .error _ => p
  | .react e => (p.react e).1
  | .relieve e => (p.relieve e).1
  | .reallocate candidates => (p.reallocate candidates).1
  | .escalate e =>
    match p.escalate e with
    | .ok (_, next) => next
    | .error _ => p
  | .complete answer => (p.complete answer).1
  | .activate => p.activate.2
  | .hangUp => { p with strategy := p.strategy.hungUp }

/-- The state after some operations. -/
def run (p : Placement α) (ops : List Operation) : Placement α := ops.foldl perform p

end Placement

/-- What placement starts from: a topology as it was built, a book of its addresses, and any
servers, grouping and strategy. -/
structure Deployment (α : Type) [Quantity α] where
  /-- The topology as it was collected, and over how many nodes it was built. -/
  collected : Topology α
  size : Nat
  topology : Topology α
  built : collected.build size = .ok topology
  book : AddressBook
  issued : AddressBook.Issued topology book
  servers : ServerPool
  grouping : Grouping
  strategy : Strategy

namespace Deployment

/-- The state before the first operation. -/
def start (d : Deployment α) : Placement α :=
  .start d.topology d.book d.servers d.grouping d.strategy

/-- The state after some operations. -/
def after (d : Deployment α) (ops : List Operation) : Placement α := d.start.run ops

theorem after_append (d : Deployment α) (ops more : List Operation) :
    d.after (ops ++ more) = (d.after ops).run more := List.foldl_append

theorem wired (d : Deployment α) : d.topology.Wired := Topology.wired_of_build d.built

/-! ### A small deployment -/

/-- Two servers and an access point in a line, where the first link carries one stream, and a third
server that nothing is wired to. -/
def line.collected : Topology Rat :=
  { Topology.empty 1 with
    nodes := [⟨⟨0⟩, .cacheServer, none⟩, ⟨⟨1⟩, .cacheServer, none⟩, ⟨⟨2⟩, .accessPoint, none⟩,
      ⟨⟨3⟩, .cacheServer, none⟩]
    links := [⟨⟨0⟩, ⟨1⟩, 1, 0, 0, 0⟩, ⟨⟨1⟩, ⟨2⟩, 10, 0, 0, 0⟩] }

/-- The line with two viewers, the origin at its start, and a solver. -/
def line : Deployment Rat where
  collected := line.collected
  size := 4
  topology := line.collected.builtOver 4
  built := rfl
  book := ((AddressBook.populated (line.collected.builtOver 4) 2).toOption).getD {}
  issued := AddressBook.issued_of_populated 2 rfl
  servers := ({ defaultCapacity := 1 } : ServerPool).registerOrigin ⟨0⟩ "origin"
  grouping := .byContent
  strategy := .optimizer true

/-- Both viewers come, and the first link, which is too small for the two, is relieved. -/
def line.rush : List Operation :=
  [.arrive ⟨2⟩ ⟨0⟩ ⟨7⟩ ⟨0⟩, .arrive ⟨2⟩ ⟨0⟩ ⟨7⟩ ⟨1⟩, .relieve (⟨0⟩, ⟨1⟩)]

end Deployment

end StreamPlacement
