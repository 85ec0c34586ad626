import StreamPlacement.Arithmetic.Room
import StreamPlacement.Backhaul.Link
import StreamPlacement.Backhaul.LoadTable
import StreamPlacement.Backhaul.Node
import StreamPlacement.Container.Sorting

/-!
The topology of the backhaul and the demand booked on it.

Nodes and links are collected first; `build` then checks them against the number of nodes and fixes
who neighbours whom. Links are undirected for lookup, but demand is booked per direction.
-/

namespace StreamPlacement

/-- Nodes, links, and what is booked on each directed pair of nodes. -/
structure Topology (α : Type) where
  /-- The demand of one stream, in bit/s: a fixed cost of admission, not a measured rate. -/
  unit : α
  nodes : List Node
  links : List (Link α)
  /-- The neighbours of each node, as of the last successful build. -/
  adjacency : Array (List NodeId)
  loads : LoadTable α

namespace Topology

variable {α : Type} [Quantity α]

/-- The demand of one stream where nothing else is configured. -/
def defaultUnit : α := Quantity.ofNat 4300000

/-- A topology with nothing in it. -/
def empty (unit : α) : Topology α := ⟨unit, [], [], #[], .zero 0⟩

def addNode (t : Topology α) (node : Node) : Topology α := { t with nodes := t.nodes ++ [node] }

def addLink (t : Topology α) (link : Link α) : Topology α := { t with links := t.links ++ [link] }

/-! ### Building -/

/-- The far ends of the links at `node`, in link order. A link from a node to itself counts at both
of its ends. -/
def farEnds (links : List (Link α)) (node : NodeId) : List NodeId :=
  links.flatMap fun link =>
    (if link.src = node then [link.dst] else []) ++ (if link.dst = node then [link.src] else [])

/-- Fixes the topology over `n` nodes: the nodes are put in order of their numbers, the neighbours
are read off the links, and nothing is booked. A node or a link end outside the `n` nodes is
refused. -/
def build (t : Topology α) (n : Nat) : Except Fault (Topology α) :=
  match t.nodes.find? (n ≤ ·.id.index) with
  | some node => .error (.topology (.nodeOutside node.id n))
  | none =>
    match t.links.find? (fun link => n ≤ link.src.index || n ≤ link.dst.index) with
    | some link => .error (.topology (.linkOutside link.src link.dst n))
    | none => .ok
        { t with
          nodes := sortByKey (·.id.index) t.nodes
          adjacency := (Array.range n).map fun i => farEnds t.links ⟨i⟩
          loads := .zero n }

/-- Builds over a number of nodes that is taken as given. Room for the lists of neighbours is asked
for as soon as the nodes are known to be inside, and room for the loads once the links are. -/
def buildOver (t : Topology α) (n : Nat) : Except Fault (Topology α) := do
  if t.nodes.all (·.id.index < n) then reserve n 24
  let built ← t.build n
  reserve (n * n) 8
  pure built

/-! ### Lookup -/

/-- The number of nodes of the last build. -/
def size (t : Topology α) : Nat := t.loads.size

def isBuilt (t : Topology α) : Bool := 0 < t.size

def node? (t : Topology α) (id : NodeId) : Option Node := t.nodes.find? (·.id = id)

def contains (t : Topology α) (id : NodeId) : Bool := id.index < t.size

def neighbours (t : Topology α) (id : NodeId) : List NodeId := t.adjacency[id.index]?.getD []

/-- Whether a node has no links. -/
def isIsolated (t : Topology α) (id : NodeId) : Bool := (t.neighbours id).isEmpty

/-- The first link between the two ends of `e`, in either orientation. -/
def link? (t : Topology α) (e : Edge) : Option (Link α) := t.links.find? (·.joins e)

/-! ### Booking -/

/-- What is booked on a directed edge. -/
def load (t : Topology α) (e : Edge) : α := t.loads.get e

/-- Whether `demand` more fits on a directed edge. Where there is no link nothing is limited. -/
def admits (t : Topology α) (e : Edge) (demand : α) : Bool :=
  match t.link? e with
  | some link => t.load e + demand ≤ link.rate
  | none => true

/-- Whether one more stream fits on a directed edge. -/
def admitsStream (t : Topology α) (e : Edge) : Bool := t.admits e t.unit

/-- Whether the link between the ends of `e` could carry `streams` streams if it were idle. A pair
without a link carries nothing. -/
def carries (t : Topology α) (e : Edge) (streams : Nat) : Bool :=
  match t.link? e with
  | some link => Quantity.ofNat streams * t.unit ≤ link.rate
  | none => false

/-- Books one stream on a directed edge. -/
def allocate (t : Topology α) (e : Edge) : Topology α :=
  { t with loads := t.loads.modify e (· + t.unit) }

/-- Books several streams, one by one. -/
def allocateMany (t : Topology α) (e : Edge) : Nat → Topology α
  | 0 => t
  | streams + 1 => (t.allocate e).allocateMany e streams

/-- Gives back several streams of a directed edge, never below zero. -/
def release (t : Topology α) (e : Edge) (streams : Nat) : Topology α :=
  let given := Quantity.ofNat streams * t.unit
  { t with loads := t.loads.modify e fun load => Quantity.atLeastZero (load - given) }

/-- Forgets all that is booked on a directed edge. -/
def reset (t : Topology α) (e : Edge) : Topology α :=
  { t with loads := t.loads.modify e fun _ => 0 }

end Topology

end StreamPlacement
