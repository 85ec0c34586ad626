import StreamPlacement.Audience.Directory
import StreamPlacement.Backhaul.ShortestRoute

/-!
All groups, in order of first appearance. There is one group per key, and a group is never removed,
so the number of a group is its position for good.
-/

namespace StreamPlacement

/-- The groups and the rule that folds viewers into them. -/
structure Registry where
  grouping : Grouping
  groups : List Group := []
  deriving DecidableEq, Repr

namespace Registry

def group? (registry : Registry) (id : GroupId) : Option Group := registry.groups[id.index]?

/-- The group with a key. -/
def find? (registry : Registry) (key : GroupKey) : Option GroupId :=
  (registry.groups.find? (·.key = key)).map Group.id

def size (registry : Registry) : Nat := registry.groups.length

/-- The viewers of all groups together. -/
def viewers (registry : Registry) : Nat := (registry.groups.map Group.size).foldr (· + ·) 0

/-- Changes one group. -/
def modify (registry : Registry) (id : GroupId) (change : Group → Group) : Registry :=
  { registry with groups := registry.groups.modify id.index change }

/-- The groups whose route uses the link between the ends of `e`, in either direction. -/
def traversing (registry : Registry) (e : Edge) : List GroupId :=
  (registry.groups.filter (·.route.traversesLink e)).map Group.id

/-- Forgets every booking on a directed edge. -/
def clearBookings (registry : Registry) (e : Edge) : Registry :=
  { registry with
    groups := registry.groups.map fun group =>
      if (group.booking.map Booking.edge) = some e then { group with booking := none } else group }

variable {α : Type} [Quantity α]

/-- Puts a viewer into the group of its key. The first viewer of a key founds the group: it is
routed from `requested` down to `accessPoint`, and served from where the directory already sends the
key, or else from `requested`. -/
def enroll (registry : Registry) (t : Topology α) (book : AddressBook) (directory : Directory)
    (accessPoint requested : NodeId) (content : ContentId) (user : UserId) :
    Except Fault (GroupId × Registry × Directory) :=
  match book.client? user with
  | none => .error (.unknownClient user)
  | some attachment =>
    let key := registry.grouping.keyFor attachment.broadcast content
    let viewer : Viewer := { user, content, address := attachment.address }
    match registry.find? key with
    | some id => .ok (id, registry.modify id (·.addViewer viewer), directory)
    | none => do
      let route ← t.route requested accessPoint
      let (serverAddress, directory) ← match directory.get? key with
        | some address => pure (address, directory)
        | none => do
          let address ← book.nodeAddress requested
          pure (address, directory.insert key address)
      let id : GroupId := ⟨registry.size⟩
      let group : Group :=
        { id, key, content, route, serverAddress, accessPoint, requested
          viewers := [viewer]
          server := (book.nodeAt? serverAddress).getD requested }
      pure (id, { registry with groups := registry.groups ++ [group] }, directory)

end Registry

end StreamPlacement
