import StreamPlacement.Audience.Group
import StreamPlacement.Backhaul.Topology

/-!
Where the groups that use a congested link shall be served.

The groups are taken in order of appearance. For each one its route is walked from the cursor toward
the access point; at every hop the groups that still have that hop ahead of them are taken together,
and as soon as their joint demand fits the hop they are all placed at its near end. A group that
reaches its access point is placed there alone. So every group is placed exactly once.
-/

namespace StreamPlacement

/-- Why a node was chosen. -/
inductive PlacementReason
  /-- The groups share this edge, and their joint demand fits it. -/
  | coLocated (edge : Edge)
  /-- The walk ended without finding room. -/
  | exhausted
  deriving DecidableEq, Repr

/-- Groups to be served from one node. -/
structure Decision where
  node : NodeId
  groups : List GroupId
  reason : PlacementReason
  deriving DecidableEq, Repr

namespace Plan

/-- The candidates, less those placed already, whose route still has the directed edge ahead. -/
def sharing (groups : List Group) (candidates placed : List GroupId) (e : Edge) : List GroupId :=
  candidates.filter fun id =>
    !placed.contains id && (groups[id.index]?).any (·.route.traversesAhead e)

/-- The number of viewers in some groups; a number without a group counts nothing. -/
def jointViewers (groups : List Group) (ids : List GroupId) : Nat :=
  (ids.map fun id => ((groups[id.index]?).map Group.size).getD 0).foldr (· + ·) 0

/-- Whether the joint demand of some groups fits the link between the ends of `e`. -/
def fits {α : Type} [Quantity α] (t : Topology α) (groups : List Group) (ids : List GroupId)
    (e : Edge) : Bool :=
  t.carries e (jointViewers groups ids)

/-- Walks along the hops ahead of a group until it can be placed. Only a route without hops leaves
it without a place. -/
def walk {α : Type} [Quantity α] (t : Topology α) (groups : List Group)
    (candidates placed : List GroupId) (id : GroupId) : List NodeId → Option Decision
  | [] => none
  | [last] => some ⟨last, [id], .exhausted⟩
  | u :: v :: rest =>
    let together := sharing groups candidates placed (u, v)
    if !together.isEmpty && fits t groups together (u, v) then
      some ⟨u, together, .coLocated (u, v)⟩
    else walk t groups candidates placed id (v :: rest)

/-- Goes through the candidates that are left, with the groups placed so far. -/
def decide {α : Type} [Quantity α] (t : Topology α) (groups : List Group)
    (candidates : List GroupId) : List GroupId → List GroupId → List Decision
  | [], _ => []
  | id :: rest, placed =>
    if placed.contains id then decide t groups candidates rest placed
    else match groups[id.index]? with
      | none => decide t groups candidates rest (id :: placed)
      | some group =>
        match walk t groups candidates placed id group.route.ahead with
        | none => decide t groups candidates rest (id :: placed)
        | some decision =>
          decision :: decide t groups candidates rest (id :: (decision.groups ++ placed))

/-- The candidates in order of appearance, each once. -/
def inOrder (candidates : List GroupId) : List GroupId :=
  (OrderedMap.ofList (candidates.map fun id => (id, ())) : OrderedSet GroupId).keys

end Plan

/-- The decisions for a list of candidates. -/
def plan {α : Type} [Quantity α] (t : Topology α) (groups : List Group)
    (candidates : List GroupId) : List Decision :=
  Plan.decide t groups (Plan.inOrder candidates) (Plan.inOrder candidates) []

end StreamPlacement
