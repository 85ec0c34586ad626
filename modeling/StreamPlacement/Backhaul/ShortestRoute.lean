import StreamPlacement.Backhaul.Route
import StreamPlacement.Backhaul.Topology

/-!
Shortest routes by hop count. The search starts at the destination and settles one node after the
other: the nearest first, and at equal distances the one with the lowest number. A node is labelled
by the first of its neighbours that is settled, so the order of the links plays no part, and of all
shortest routes the search finds the first in the order of node numbers. It stops as soon as the
source is settled.
-/

namespace StreamPlacement

/-- What the search knows of a node: how far it is from the destination, which hop comes next on the
way there, and whether it is settled. -/
structure Label where
  distance : Nat
  next : NodeId
  settled : Bool

/-- The labels of all nodes, as far as there are any yet. -/
abbrev Labels := Array (Option Label)

/-- Whether one node at its distance is settled ahead of another at its own. -/
def Ahead (a b : Nat × NodeId) : Prop := a.1 < b.1 ∨ (a.1 = b.1 ∧ a.2.index < b.2.index)

instance (a b : Nat × NodeId) : Decidable (Ahead a b) := inferInstanceAs (Decidable (_ ∨ _))

/-- The node that is settled ahead of all others. -/
def foremost? : List (Nat × NodeId) → Option (Nat × NodeId)
  | [] => none
  | a :: rest =>
    match foremost? rest with
    | none => some a
    | some b => some (if Ahead b a then b else a)

namespace Labels

def get? (labels : Labels) (u : NodeId) : Option Label := labels[u.index]?.join

def put (labels : Labels) (u : NodeId) (label : Label) : Labels :=
  labels.setIfInBounds u.index (some label)

/-- The labels before the first step: the destination is settled, and nothing else is known. -/
def start (size : Nat) (dest : NodeId) : Labels :=
  put (Array.replicate size none) dest ⟨0, dest, true⟩

/-- Looks at `v` from a neighbour: unless `v` is settled, or known to be as near already, the way
over the neighbour is its way from now on. -/
def relax (distance : Nat) (neighbour : NodeId) (labels : Labels) (v : NodeId) : Labels :=
  match labels.get? v with
  | none => labels.put v ⟨distance + 1, neighbour, false⟩
  | some label =>
    if !label.settled && distance + 1 < label.distance then
      labels.put v ⟨distance + 1, neighbour, false⟩
    else labels

/-- The nodes with a label that are not settled, and their distances. -/
def unsettled (labels : Labels) : List (Nat × NodeId) :=
  (List.range labels.size).filterMap fun i =>
    (labels.get? ⟨i⟩).bind fun label => if label.settled then none else some (label.distance, ⟨i⟩)

/-- Settles a node with the label that it has. -/
def settle (labels : Labels) (u : NodeId) : Labels :=
  match labels.get? u with
  | some label => labels.put u { label with settled := true }
  | none => labels

/-- The hops from `u` down to the destination, as the labels name them. -/
def hopsFrom (labels : Labels) : Nat → NodeId → List NodeId
  | 0, u => [u]
  | distance + 1, u =>
    match labels.get? u with
    | some label => u :: labels.hopsFrom distance label.next
    | none => [u]

end Labels

namespace Topology

variable {α : Type} [Quantity α]

/-- Goes on from the node that was settled last, for at most some more steps, until `source` is
settled or there is no node left to settle. -/
def search (t : Topology α) (source : NodeId) : Nat → Labels → Nat × NodeId → Option (List NodeId)
  | 0, _, _ => none
  | steps + 1, labels, (distance, current) =>
    if current = source then some (labels.hopsFrom distance current)
    else
      let labels := (t.neighbours current).foldl (Labels.relax distance current) labels
      match foremost? labels.unsettled with
      | some next => t.search source steps (labels.settle next.2) next
      | none => none

/-- The shortest route from `source` to `dest`. No more steps are needed than there are nodes. -/
def route (t : Topology α) (source dest : NodeId) : Except Fault Route :=
  if !t.isBuilt then .error (.topology .notBuilt)
  else if !t.contains source then .error (.unknownNode source)
  else if !t.contains dest then .error (.unknownNode dest)
  else
    match t.search source t.size (Labels.start t.size dest) (0, dest) with
    | some hops => .ok (.ofHops hops)
    | none => .error (.noRoute source dest)

end Topology

end StreamPlacement
