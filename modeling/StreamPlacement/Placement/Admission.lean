import StreamPlacement.Placement.State

/-!
Admission of viewers. A viewer always ends up in its group; what is checked is only whether one more
stream fits on the first hop of the group's route.
-/

namespace StreamPlacement

/-- What became of a viewer's arrival. A full first hop is reported, and the caller decides whether
to make room. -/
inductive Admission
  | accepted (group : GroupId) (edge : Option Edge)
  | exceeded (group : GroupId) (edge : Edge)
  deriving DecidableEq, Repr

namespace Placement

variable {α : Type} [Quantity α]

/-- Admits a viewer that sits behind `accessPoint` and asks the server at `requested`. -/
def admitViewer (p : Placement α) (accessPoint requested : NodeId) (content : ContentId)
    (user : UserId) : Except Fault (Admission × Placement α) := do
  let (id, registry, directory) ←
    p.registry.enroll p.topology p.book p.directory accessPoint requested content user
  let p := { p with registry, directory }
  match (registry.group? id).bind (·.route.currentEdge?) with
  | none =>
    let tally := { p.tally with admitted := p.tally.admitted + 1 }
    pure (.accepted id none, { p with tally })
  | some e =>
    if p.topology.admitsStream e then
      let tally := { p.tally with admitted := p.tally.admitted + 1 }
      let topology := p.topology.allocate e
      let registry := registry.modify id (·.bookStream e)
      pure (.accepted id (some e), { p with tally, topology, registry })
    else
      let tally := { p.tally with refused := p.tally.refused + 1 }
      pure (.exceeded id e, { p with tally })

end Placement

end StreamPlacement
