import StreamPlacement.Decimal.Numeral
import StreamPlacement.Severity
import StreamPlacement.Solver.Request
import StreamPlacement.Text.Blank

/-!
What a solver answers: lines of two numbers, a group and the node that shall serve it.
-/

namespace StreamPlacement.Solver

/-- A group and the node that shall serve it. -/
structure Assignment where
  group : Nat
  server : Nat
  deriving DecidableEq, Repr

/-- The assignment on a line: its first two fields, if both are whole numbers. Further fields are
ignored, and any other line says nothing. -/
def Assignment.ofLine? (line : List Char) : Option Assignment :=
  match Text.fields line with
  | group :: server :: _ =>
    match Decimal.readWord? group, Decimal.readWord? server with
    | some group, some server => some { group, server }
    | _, _ => none
  | _ => none

/-- All assignments of a solver's output, in order. -/
def Assignment.ofOutput (output : List Char) : List Assignment :=
  (Text.lines output).filterMap Assignment.ofLine?

/-- Whether every line of a solver's output that is not blank is an assignment. -/
def Assignment.areAll (output : List Char) : Bool :=
  (Text.lines output).all fun line =>
    (Text.fields line).isEmpty || (Assignment.ofLine? line).isSome

/-- What came back for a request: assignments, and the words of a fault if the solver failed. -/
structure Answer where
  request : RequestId
  assignments : List Assignment := []
  fault : Option String := none
  /-- How grave the gravest thing was that came up while the solver ran. -/
  severity : Severity := .quiet
  deriving DecidableEq, Repr

end StreamPlacement.Solver
