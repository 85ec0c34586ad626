import StreamPlacement.Placement.State

/-!
Moving a group to another server: its booking is given back, its route and the directory are
changed, and its streams are booked anew.
-/

namespace StreamPlacement

/-- A group and the node that serves it from now on, which may be the one that did before. -/
structure Relocation where
  group : GroupId
  source : NodeId
  target : NodeId
  address : Address
  moved : Bool
  deriving DecidableEq, Repr

namespace Placement

variable {α : Type} [Quantity α]

/-- Gives back what a group has booked. -/
def releaseBooking (p : Placement α) (id : GroupId) : Placement α :=
  match (p.registry.group? id).bind Group.booking with
  | some booking =>
    { p with
      topology := p.topology.release booking.edge booking.streams
      registry := p.registry.modify id ({ · with booking := none }) }
  | none => p

/-- Books one stream per viewer of a group on an edge, or nothing without an edge. -/
def bookGroup (p : Placement α) (id : GroupId) (edge : Option Edge) : Placement α :=
  match p.registry.group? id, edge with
  | some group, some e =>
    { p with
      topology := p.topology.allocateMany e group.size
      registry := p.registry.modify id ({ · with booking := some ⟨e, group.size⟩ }) }
  | _, _ => { p with registry := p.registry.modify id ({ · with booking := none }) }

/-- Serves a group from `node`: it is routed from there to its access point, and the directory sends
its key to the address of `node`. Nothing changes if that fails. -/
def redirect (p : Placement α) (id : GroupId) (node : NodeId) (content : ContentId) :
    Except Fault (Relocation × Placement α) := do
  let address ← p.book.nodeAddress node
  match p.registry.group? id with
  | none => throw (.unknownGroup id)
  | some group =>
    let route ← p.topology.route node group.accessPoint
    let moved := group.server ≠ node
    let relocation : Relocation :=
      { group := id, source := group.server, target := node, address, moved }
    let tally := { p.tally with relocations := p.tally.relocations + if moved then 1 else 0 }
    let registry := p.registry.modify id
      ({ · with route, server := node, serverAddress := address })
    let directory := p.directory.insert (group.key.withContent content) address
    pure (relocation, { p with tally, registry, directory })

/-- Gives back the booking of a group, redirects it with its own content and, where that succeeds,
books the edge that `edgeFor` picks from the new state. -/
def rehome (p : Placement α) (id : GroupId) (node : NodeId)
    (edgeFor : Placement α → Option Edge) : Placement α × Except Fault Relocation :=
  match p.registry.group? id with
  | none => (p, .error (.unknownGroup id))
  | some group =>
    let released := p.releaseBooking id
    match released.redirect id node group.content with
    | .error fault => (released, .error fault)
    | .ok (relocation, moved) => (moved.bookGroup id (edgeFor moved), .ok relocation)

end Placement

end StreamPlacement
