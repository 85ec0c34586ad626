/-!
What an external solver is asked. It gets the congested link and the roster of all groups as plain
numbers on its command line.
-/

namespace StreamPlacement.Solver

/-- The position of a request among all that were handed over. -/
abbrev RequestId := Nat

/-- One group as the solver sees it. -/
structure RosterEntry where
  accessPoint : Nat
  /-- A number of its own beyond those of the nodes, for the group as a virtual node. -/
  syntheticId : Nat
  index : Nat
  viewers : Nat
  deriving DecidableEq, Repr

/-- The congested link and all groups. -/
structure Request where
  congested : Nat × Nat
  roster : List RosterEntry
  deriving DecidableEq, Repr

/-- The numbers of one group, in order. -/
def RosterEntry.numbers (entry : RosterEntry) : List Nat :=
  [entry.accessPoint, entry.syntheticId, entry.index, entry.viewers]

/-- The numbers of a request: how many groups, the two ends of the link, then four per group. -/
def Request.numbers (request : Request) : List Nat :=
  [request.roster.length, request.congested.1, request.congested.2]
    ++ request.roster.flatMap RosterEntry.numbers

/-- The arguments of the solver's command line. -/
def Request.arguments (request : Request) : List String := request.numbers.map Nat.repr

end StreamPlacement.Solver
