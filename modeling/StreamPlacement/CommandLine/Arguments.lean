import StreamPlacement.Decimal.Numeral
import StreamPlacement.Ident

/-!
What the program is asked to do, read off its arguments.

An option is written `--name value`, `--name=value` or, where it has a letter, `-x value`, `-xvalue`
or `-x=value`. An argument that begins with a hyphen is never the value of an option before it.
Behind `--` there are no more options. No option is given twice, except the log level, which may
stand both in front of the command and behind it; the one behind it counts.
-/

namespace StreamPlacement.CommandLine

/-! ### Options -/

/-- The options of all commands. -/
inductive Switch
  | version
  | logLevel
  | config
  | trace
  | strategy
  | seed
  | nodes
  | links
  deriving DecidableEq, Repr

def Switch.name : Switch → String
  | .version => "version"
  | .logLevel => "log-level"
  | .config => "config"
  | .trace => "trace"
  | .strategy => "strategy"
  | .seed => "seed"
  | .nodes => "nodes"
  | .links => "links"

/-- The letter of an option that has one. -/
def Switch.letter? : Switch → Option Char
  | .version => some 'V'
  | .config => some 'c'
  | _ => none

/-- What an argument is by its looks. -/
inductive Token
  | separator
  | long (name : String) (attached : Option String)
  | short (letter : Char) (attached : Option String)
  | word (text : String)
  deriving DecidableEq, Repr

/-- The looks of an argument. A hyphen alone is a word. -/
def Token.ofArgument (argument : String) : Token :=
  match argument.toList with
  | ['-', '-'] => .separator
  | '-' :: '-' :: rest =>
    let name := String.ofList (rest.takeWhile (· != '='))
    match rest.dropWhile (· != '=') with
    | [] => .long name none
    | _ :: value => .long name (some (String.ofList value))
  | ['-', letter] => .short letter none
  | '-' :: letter :: '=' :: value => .short letter (some (String.ofList value))
  | '-' :: letter :: value => .short letter (some (String.ofList value))
  | _ => .word argument

/-- The option that a token names, out of those that are known, and the value attached to it. -/
def Token.switch? (known : List Switch) : Token → Option (Switch × Option String)
  | .long name attached => (known.find? (·.name = name)).map (·, attached)
  | .short letter attached => (known.find? (·.letter? = some letter)).map (·, attached)
  | _ => none

/-! ### The arguments of a command -/

/-- Options with their values, and the other arguments, in order. -/
structure Scan where
  given : List (Switch × String) := []
  words : List String := []
  deriving DecidableEq, Repr

def Scan.give (scan : Scan) (switch : Switch) (value : String) : Scan :=
  { scan with given := (switch, value) :: scan.given }

def Scan.say (scan : Scan) (text : String) : Scan := { scan with words := text :: scan.words }

/-- Goes through some arguments; the option in front of them may still wait for its value. -/
def Scan.ofArguments? (known : List Switch) : Option Switch → List String → Option Scan
  | none, [] => some {}
  | some _, [] => none
  | some switch, argument :: rest =>
    match Token.ofArgument argument with
    | .word text => (Scan.ofArguments? known none rest).map (·.give switch text)
    | _ => none
  | none, argument :: rest =>
    match Token.ofArgument argument with
    | .separator => some { words := rest }
    | .word text => (Scan.ofArguments? known none rest).map (·.say text)
    | token =>
      match token.switch? known with
      | none => none
      | some (switch, none) => Scan.ofArguments? known (some switch) rest
      | some (switch, some value) =>
        (Scan.ofArguments? known none rest).map (·.give switch value)

/-- The value of an option that has to be there. -/
def Scan.required {β : Type} (scan : Scan) (switch : Switch) (read : String → Option β) :
    Option β :=
  (scan.given.lookup switch).bind read

/-- The value of an option that may be left out. -/
def Scan.optional {β : Type} (scan : Scan) (switch : Switch) (read : String → Option β) :
    Option (Option β) :=
  match scan.given.lookup switch with
  | none => some none
  | some text => (read text).map some

/-- A path is any text but the empty one. -/
def path? (text : String) : Option String := if text.isEmpty then none else some text

/-- A whole number of at most 64 bits. -/
def word? (text : String) : Option Nat := Decimal.readWord? text.toList

/-! ### Commands -/

/-- What the program can do. -/
inductive Command
  /-- Replay a workload against the control plane of a configuration. -/
  | run (config : String) (trace strategy : Option String) (seed : Option Nat)
  /-- Print the route between two nodes of a topology. -/
  | route (nodes links : String) (source dest : NodeId)
  deriving DecidableEq, Repr

/-- The options behind the name of a command. -/
def Command.switches? : String → Option (List Switch)
  | "run" => some [.config, .trace, .strategy, .seed, .logLevel]
  | "route" => some [.nodes, .links, .logLevel]
  | _ => none

/-- The command of a name, with its options and words. -/
def Command.ofScan? (name : String) (scan : Scan) : Option Command :=
  match name, scan.words with
  | "run", [] => do
    let config ← scan.required .config path?
    let trace ← scan.optional .trace path?
    let strategy ← scan.optional .strategy some
    let seed ← scan.optional .seed word?
    pure (.run config trace strategy seed)
  | "route", [source, dest] => do
    let nodes ← scan.required .nodes path?
    let links ← scan.required .links path?
    let source ← word? source
    let dest ← word? dest
    pure (.route nodes links ⟨source⟩ ⟨dest⟩)
  | _, _ => none

/-- What the program is asked to do. -/
inductive Order
  | tellVersion
  | obey (logLevel : Option String) (command : Command)
  deriving DecidableEq, Repr

/-- A command by its name and the arguments behind it, with the log level in front of it. -/
def Order.ofCommand? (logLevel : Option String) (name : String) (arguments : List String) :
    Option Order := do
  let known ← Command.switches? name
  let scan ← Scan.ofArguments? known none arguments
  if (scan.given.map Prod.fst).Nodup then
    let command ← Command.ofScan? name scan
    pure (.obey ((scan.given.lookup .logLevel).or logLevel) command)
  else none

/-- Goes through the arguments up to the command; `waiting` says whether the log level still waits
for its value. The question for the version is answered as soon as it is met. -/
def Order.ofFront? (waiting : Bool) (logLevel : Option String) : List String → Option Order
  | [] => none
  | argument :: rest =>
    match waiting, Token.ofArgument argument with
    | true, .word text =>
      if logLevel.isSome then none else Order.ofFront? false (some text) rest
    | true, _ => none
    | false, .word name => Order.ofCommand? logLevel name rest
    | false, token =>
      match token, token.switch? [.version, .logLevel] with
      | .long _ (some _), some (.version, _) => none
      | _, some (.version, _) => some .tellVersion
      | _, some (_, none) => Order.ofFront? true logLevel rest
      | _, some (_, some text) =>
        if logLevel.isSome then none else Order.ofFront? false (some text) rest
      | _, none => none

/-- What the arguments ask for; nothing where they are not understood. -/
def Order.ofArguments? (arguments : List String) : Option Order :=
  Order.ofFront? false none arguments

example : Order.ofArguments? ["route", "--nodes=n", "--links", "l", "--", "3", "+0"]
    = some (.obey none (.route "n" "l" ⟨3⟩ ⟨0⟩)) := by decide +kernel

example : Order.ofArguments? ["run", "-c", "-x"] = none := by decide +kernel

end StreamPlacement.CommandLine
