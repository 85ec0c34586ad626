/-!
How grave the things are that come up while the program works. What is grave enough is told at once,
apart from how the work ends.
-/

namespace StreamPlacement

/-- How grave something is. -/
inductive Severity
  /-- The course of the work, and nothing else. -/
  | quiet
  /-- Something is odd, and the work goes on as if it were not. -/
  | warning
  /-- Something could not be done. -/
  | error
  deriving DecidableEq, Repr

namespace Severity

/-- The graver of two. -/
def graver : Severity → Severity → Severity
  | .error, _ => .error
  | _, .error => .error
  | .warning, _ => .warning
  | _, .warning => .warning
  | .quiet, .quiet => .quiet

instance : Max Severity := ⟨graver⟩

end Severity

end StreamPlacement
