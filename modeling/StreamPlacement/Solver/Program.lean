import StreamPlacement.Fault
import StreamPlacement.Solver.Worker
import StreamPlacement.Text.Utf8

/-!
The programs that can be the solver. There is one at hand, which prints the files that its arguments
name, one after the other, so that its script is its answer.
-/

namespace StreamPlacement.Solver

/-- The program that is at hand. -/
def printer : String := "cat"

/-- The files that the printer prints, as far as they can be read; `read` has the bytes of those
that can. It takes the numbers of a request for names too. A script that begins with a hyphen is an
option to it: one hyphen is its empty input, two only end the options, and all others keep it from
printing anything. -/
def printed (script : String) (numbers : List String) (read : String → Option (List UInt8)) :
    List (Option (List UInt8)) :=
  match script.toList with
  | ['-'] => numbers.map read
  | ['-', '-'] => numbers.map read
  | '-' :: _ => [none]
  | _ => (script :: numbers).map read

/-- What the printer responds. It complains about what it cannot read, and it is odd if it prints
anything but assignments. -/
def Reply.ofPrinted (files : List (Option (List UInt8))) : Reply :=
  let output := Text.Utf8.lenient (files.flatMap (·.getD []))
  let sound := files.all Option.isSome && Assignment.areAll output
  { outcome := .ok (Assignment.ofOutput output), severity := if sound then .quiet else .warning }

/-- What a program with its script responds to a request. No program but the printer can be started,
and none at all with a zero character on its command line. -/
def Reply.ofProgram (interpreter script : String) (read : String → Option (List UInt8))
    (request : Request) : Reply :=
  if (interpreter ++ script).toList.contains '\x00' then
    { outcome := .error (.nulInArguments interpreter) }
  else if interpreter = printer then .ofPrinted (printed script request.arguments read)
  else { outcome := .error (.cannotStart interpreter) }

end StreamPlacement.Solver
