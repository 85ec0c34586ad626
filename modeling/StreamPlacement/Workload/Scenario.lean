import StreamPlacement.Backhaul.AddressBook
import StreamPlacement.Container.Sorting
import StreamPlacement.Simulation.Event
import StreamPlacement.Workload.KeyStream

/-!
Generated workloads. Every viewer starts one session, at a time drawn evenly from the start window,
and watches a content drawn by rank: the content of rank `k` has the weight `1 / k ^ s`.
-/

namespace StreamPlacement

/-- What a generated workload is made from. -/
structure Scenario where
  seed : Nat
  /-- The length in seconds of the window in which sessions start. -/
  startWindow : Float
  contents : Nat
  zipfExponent : Float
  deriving DecidableEq

namespace Scenario

/-- The weights of the ranks from one to `n`. -/
def weights (n : Nat) (exponent : Float) : List Float :=
  (List.range n).map fun i => 1 / Float.pow (Float.ofNat (i + 1)) exponent

/-- The running sums of some shares, each a weight over the total. -/
def accumulate (total : Float) : List Float → Float → List Float
  | [], _ => []
  | weight :: rest, sum =>
    let sum := sum + weight / total
    sum :: accumulate total rest sum

/-- The upper bounds of the ranks on the scale from zero to one. -/
def bounds (scenario : Scenario) : List Float :=
  let weights := weights (max scenario.contents 1) scenario.zipfExponent
  accumulate (weights.foldl (· + ·) 0) weights 0

/-- The first rank whose bound is not below the draw, and the last if there is none. -/
def rank (bounds : List Float) (draw : Float) : Nat :=
  match bounds.findIdx? (draw ≤ ·) with
  | some position => position + 1
  | none => bounds.length - 1 + 1

/-- A draw as a number from zero to one, in steps of `2 ^ -52`. -/
def timeShare (draw : UInt64) : Float := (draw >>> 12).toFloat / Float.ofNat (Nat.pow 2 52)

/-- A draw as a number from zero to one, in steps of `2 ^ -53`. -/
def rankShare (draw : UInt64) : Float := (draw >>> 11).toFloat / Float.ofNat (Nat.pow 2 53)

/-- The next time that is drawn from the start window. Without a window all sessions start at once,
and nothing is drawn. -/
def drawTime (scenario : Scenario) (g : Generator) : StateM g.State Float :=
  if 0 < scenario.startWindow then do
    let draw ← g.next
    pure (timeShare draw * scenario.startWindow)
  else pure 0

/-- The arrival of the next viewer: first its time is drawn, then its content. -/
def arrival (scenario : Scenario) (g : Generator) (bounds : List Float) (user : UserId) :
    StateM g.State (TimedEvent Float) := do
  let time ← scenario.drawTime g
  let draw ← g.next
  pure ⟨time, .arrival user ⟨rank bounds (rankShare draw)⟩ none⟩

/-- The arrivals of some viewers, in order of time; those of the same time in the given order. The
viewers draw one after the other. -/
def generate (scenario : Scenario) (g : Generator) (users : List UserId) :
    List (TimedEvent Float) :=
  let draws := users.mapM (scenario.arrival g scenario.bounds)
  let (arrivals, _) := draws.run (g.start scenario.seed)
  sortByKey (·.time.toBits.toNat) arrivals

/-- The workload for some viewers, if it can be made: room for the weights is asked for, and a time
cannot be drawn from a window without end. -/
def workloadFrom (scenario : Scenario) (g : Generator) (users : List UserId) :
    Except Fault (List (TimedEvent Float)) := do
  reserve (max scenario.contents 1) 8
  if Binary64.ofFloat scenario.startWindow = .infinite false && !users.isEmpty then
    throw (.breakdown .endlessWindow)
  pure (scenario.generate g users)

/-- The workload that is drawn from the key stream. -/
def workload (scenario : Scenario) (users : List UserId) :
    Except Fault (List (TimedEvent Float)) :=
  scenario.workloadFrom KeyStream.generator users

end Scenario

end StreamPlacement
