import StreamPlacement.Severity

/-!
How much is told on the error stream while the program works.
-/

namespace StreamPlacement.CommandLine

/-- How much is told. -/
inductive LogLevel
  | off
  | error
  | warn
  | info
  | debug
  | trace
  deriving DecidableEq, Repr

namespace LogLevel

def names : List (String × LogLevel) :=
  [("off", .off), ("error", .error), ("warn", .warn), ("info", .info), ("debug", .debug),
    ("trace", .trace)]

/-- The level of a name, in any case. -/
def ofText? (text : String) : Option LogLevel :=
  names.lookup (String.ofList (text.toList.map Char.toLower))

/-- The level where none is given. -/
def default : LogLevel := .info

/-- Whether nothing is told when nothing graver than `severity` comes up. From `info` on the course
of the work is told, so that there always is something. -/
def isSilent (level : LogLevel) (severity : Severity) : Bool :=
  match level with
  | .off => true
  | .error => severity ≠ .error
  | .warn => severity = .quiet
  | .info | .debug | .trace => false

end LogLevel

end StreamPlacement.CommandLine
