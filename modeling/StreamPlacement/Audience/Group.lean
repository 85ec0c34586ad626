import StreamPlacement.Arithmetic.Quantity
import StreamPlacement.Backhaul.AddressBook
import StreamPlacement.Backhaul.Route

/-!
Groups of viewers. Viewers behind one access point that watch the same content, or just share the
access point, are routed and placed as one.
-/

namespace StreamPlacement

/-- One viewing session. -/
structure Viewer where
  user : UserId
  address : Address
  content : ContentId
  deriving DecidableEq, Repr

/-- The identity of a group: the network of its viewers, narrowed to one content or not. -/
structure GroupKey where
  broadcast : Address
  content : Option ContentId
  deriving DecidableEq, Repr

namespace GroupKey

/-- Keys are ordered by the address text and then by the content; a key without one comes first. -/
instance : Ord GroupKey :=
  ⟨fun a b => (compare a.broadcast b.broadcast).then (compare a.content b.content)⟩

theorem compare_def (a b : GroupKey) :
    compare a b = compareLex (compareOn broadcast) (compareOn content) a b := rfl

instance : Std.TransOrd GroupKey :=
  inferInstanceAs (Std.TransCmp (compareLex (compareOn broadcast) (compareOn content)))

instance : Std.LawfulEqOrd GroupKey where
  compare_self := by
    intro a
    simp
  eq_of_compare := by
    intro a b h
    simp only [compare_def, compareLex, compareOn, Ordering.then_eq_eq] at h
    cases a
    cases b
    simp_all

/-- The same network, with the content replaced where the key names one. -/
def withContent (key : GroupKey) (content : ContentId) : GroupKey :=
  { key with content := key.content.map fun _ => content }

/-- The key in words. -/
def text (key : GroupKey) : String :=
  match key.content with
  | some content => key.broadcast ++ "#" ++ content.text
  | none => key.broadcast

end GroupKey

/-- What makes viewers of one network a group. -/
inductive Grouping
  /-- Watching the same content. -/
  | byContent
  /-- Sharing the network. -/
  | byNetwork
  deriving DecidableEq, Repr, Inhabited

/-- The key of a viewer's group. -/
def Grouping.keyFor (grouping : Grouping) (broadcast : Address) (content : ContentId) : GroupKey :=
  match grouping with
  | .byContent => ⟨broadcast, some content⟩
  | .byNetwork => ⟨broadcast, none⟩

/-- The streams that a group has booked on one directed edge. -/
structure Booking where
  edge : Edge
  streams : Nat
  deriving DecidableEq, Repr

/-- Viewers that are routed and placed as one. -/
structure Group where
  /-- The position of the group in order of appearance. -/
  id : GroupId
  key : GroupKey
  /-- The access point that the viewers sit behind. -/
  accessPoint : NodeId
  /-- The server that was asked for at first. -/
  requested : NodeId
  /-- The content of the first viewer; it decides where a solver may place the group. -/
  content : ContentId
  viewers : List Viewer
  /-- The node that serves the group now, and its address. -/
  server : NodeId
  serverAddress : Address
  /-- The way from the server down to the access point. -/
  route : Route
  booking : Option Booking := none
  deriving DecidableEq, Repr

namespace Group

/-- The number of viewers. -/
def size (group : Group) : Nat := group.viewers.length

def addViewer (group : Group) (viewer : Viewer) : Group :=
  { group with viewers := group.viewers ++ [viewer] }

/-- Books one more stream on `e`; a booking on another edge is replaced. -/
def bookStream (group : Group) (e : Edge) : Group :=
  let streams := match group.booking with
    | some booking => if booking.edge = e then booking.streams + 1 else 1
    | none => 1
  { group with booking := some ⟨e, streams⟩ }

/-- The demand of all viewers together, in bit/s. -/
def demand {α : Type} [Quantity α] (group : Group) (unit : α) : α :=
  Quantity.ofNat group.size * unit

end Group

end StreamPlacement
