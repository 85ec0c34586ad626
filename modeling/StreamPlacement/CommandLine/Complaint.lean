import StreamPlacement.Fault

/-!
Failures as they are told on the error stream: what was being done, and why it could not be.
-/

namespace StreamPlacement

/-- The words of a fault, followed by those of its own cause where it has one. -/
def Fault.causes (fault : Fault) : List String :=
  match fault with
  | .file cause => [fault.message, cause.message]
  | .malformedDocument => [fault.message, "it does not have the expected form"]
  | _ => [fault.message]

/-- A failure in words, and the causes behind it, the nearest first. -/
structure Complaint where
  headline : String
  causes : List String
  deriving DecidableEq, Repr

namespace Complaint

/-- A fault that speaks for itself. -/
def ofFault (fault : Fault) : Complaint := ⟨fault.message, fault.causes.tail⟩

/-- A fault in something that was being done. -/
def within (activity : String) (fault : Fault) : Complaint := ⟨activity, fault.causes⟩

/-- A text whose further lines begin with `margin`. -/
def indent (margin text : String) : String :=
  String.ofList (text.toList.flatMap fun c => if c = '\n' then '\n' :: margin.toList else [c])

/-- A cause on its lines; the number in front of it counts from zero. -/
def numbered (cause : String) (number : Nat) : String :=
  "    " ++ Nat.repr number ++ ": " ++ indent "       " cause

/-- The causes on their lines. A single one has no number. -/
def causeLines : List String → List String
  | [cause] => ["    " ++ indent "    " cause]
  | causes => causes.zipIdx.map fun (cause, number) => numbered cause number

/-- The whole complaint. -/
def text (c : Complaint) : String :=
  let headline := "Error: " ++ c.headline
  if c.causes.isEmpty then headline
  else headline ++ "\n\nCaused by:\n" ++ "\n".intercalate (causeLines c.causes)

end Complaint

end StreamPlacement
