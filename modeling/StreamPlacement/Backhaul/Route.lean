import StreamPlacement.Arithmetic.Room

/-!
Routes: sequences of hops with a cursor. A route is built once and afterwards only its cursor moves;
the cursor walks along the hops and stays on the last one.
-/

namespace StreamPlacement

/-- The directed edges between consecutive hops. -/
def edgesOf (hops : List NodeId) : List Edge := hops.zip hops.tail

/-- A sequence of hops and the position of the cursor in it. -/
structure Route where
  hops : List NodeId
  cursor : Nat
  deriving DecidableEq, Repr, Inhabited

namespace Route

/-- The route over `hops` with the cursor at the start. -/
def ofHops (hops : List NodeId) : Route := ⟨hops, 0⟩

def empty : Route := ofHops []

/-- An empty route for which room for some hops is asked. -/
def withRoom (hops : Nat) : Except Fault Route := (reserve hops 8).map fun _ => empty

/-- The route of a node to itself. -/
def single (node : NodeId) : Route := ofHops [node]

/-- Adds a hop at the end; the cursor stays. -/
def push (r : Route) (hop : NodeId) : Route := { r with hops := r.hops ++ [hop] }

def clear (_ : Route) : Route := empty

def first? (r : Route) : Option NodeId := r.hops.head?
def last? (r : Route) : Option NodeId := r.hops.getLast?
def length (r : Route) : Nat := r.hops.length

/-! ### The cursor -/

/-- The hop under the cursor. -/
def here? (r : Route) : Option NodeId := r.hops[r.cursor]?

/-- The hop after the cursor; none on the last hop. -/
def next? (r : Route) : Option NodeId := r.hops[r.cursor + 1]?

/-- The directed edge that leaves the hop under the cursor. -/
def currentEdge? (r : Route) : Option Edge :=
  match r.here?, r.next? with
  | some u, some v => some (u, v)
  | _, _ => none

/-- Whether no hop follows the cursor. -/
def atEnd (r : Route) : Bool := r.length ≤ r.cursor + 1

def rewind (r : Route) : Route := { r with cursor := 0 }

/-- One hop forward, unless the cursor is on the last hop. -/
def advance (r : Route) : Route := if r.atEnd then r else { r with cursor := r.cursor + 1 }

/-- One hop back, unless the cursor is on the first hop. -/
def retreat (r : Route) : Route := { r with cursor := r.cursor - 1 }

/-- Puts the cursor where the last edge begins. -/
def toLastEdge (r : Route) : Route := { r with cursor := r.length - 2 }

/-- The hops from the cursor on. -/
def ahead (r : Route) : List NodeId := r.hops.drop r.cursor

/-! ### Edges -/

def edges (r : Route) : List Edge := edgesOf r.hops

/-- Whether the directed edge is on the route. -/
def traverses (r : Route) (e : Edge) : Bool := r.edges.contains e

/-- Whether the directed edge is on the route at or after the cursor. -/
def traversesAhead (r : Route) (e : Edge) : Bool := (edgesOf r.ahead).contains e

/-- Whether the route uses the link between the ends of `e`, in either direction. -/
def traversesLink (r : Route) (e : Edge) : Bool := r.edges.any fun x => x == e || x == e.swap

/-- Walks forward until the cursor is on `e`, for at most `steps` hops. The answer says whether it
got there. -/
def walkTo (e : Edge) : Nat → Route → Bool × Route
  | 0, r => (false, r)
  | steps + 1, r =>
    if r.atEnd then (false, r)
    else if r.currentEdge? = some e then (true, r)
    else walkTo e steps r.advance

/-- Puts the cursor on the first occurrence of the directed edge. Without one the cursor ends on the
last hop. -/
def seek (r : Route) (e : Edge) : Bool × Route := walkTo e r.length r.rewind

/-- The hops in words. -/
def text (r : Route) : String :=
  if r.hops.isEmpty then "Path: empty"
  else "Path: " ++ " -> ".intercalate (r.hops.map Id.text)

end Route

end StreamPlacement
