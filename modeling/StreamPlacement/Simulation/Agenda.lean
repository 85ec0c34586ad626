import StreamPlacement.Arithmetic.Quantity
import StreamPlacement.Simulation.Event

/-!
The agenda of a run: events in order of their time, which is kept in whole milliseconds. Events of
the same millisecond come in the order in which they were entered, and the clock never goes back.
-/

namespace StreamPlacement

/-- An event, its time in milliseconds and its number in order of entry. -/
structure Appointment where
  time : Nat
  number : Nat
  event : Event
  deriving DecidableEq, Repr

/-- The events to come, the soonest first, and the clock. -/
structure Agenda where
  queue : List Appointment := []
  clock : Nat := 0
  entered : Nat := 0
  deriving DecidableEq, Repr

namespace Agenda

/-- Puts an appointment behind all that are not later. -/
def place (appointment : Appointment) : List Appointment → List Appointment
  | [] => [appointment]
  | next :: rest =>
    if appointment.time < next.time then appointment :: next :: rest
    else next :: place appointment rest

/-- Enters an event at a time in milliseconds; a time that has passed becomes now. -/
def enter (agenda : Agenda) (time : Nat) (event : Event) : Agenda :=
  let appointment : Appointment :=
    { time := max time agenda.clock, number := agenda.entered, event }
  { agenda with queue := place appointment agenda.queue, entered := agenda.entered + 1 }

/-- Takes the soonest event and sets the clock to its time. -/
def pop? (agenda : Agenda) : Option (Appointment × Agenda) :=
  match agenda.queue with
  | [] => none
  | next :: rest => some (next, { agenda with queue := rest, clock := next.time })

/-- The number of events to come. -/
def size (agenda : Agenda) : Nat := agenda.queue.length

/-! ### Seconds -/

variable {α : Type} [Quantity α]

/-- Seconds as whole milliseconds, the nearest, and none below zero. -/
def millis (seconds : α) : Nat :=
  Quantity.round (Quantity.atLeastZero seconds * Quantity.ofNat 1000)

/-- Milliseconds as seconds. -/
def seconds (millis : Nat) : α := Quantity.ofNat millis / Quantity.ofNat 1000

/-- The clock in seconds. -/
def now (agenda : Agenda) : α := seconds agenda.clock

/-- The time of the soonest event in seconds. -/
def peek? (agenda : Agenda) : Option α := agenda.queue.head?.map fun next => seconds next.time

/-- Enters an event at a time in seconds. -/
def enterAt (agenda : Agenda) (time : α) (event : Event) : Agenda :=
  agenda.enter (millis time) event

/-- Enters an event a number of seconds after the clock. -/
def enterIn (agenda : Agenda) (delay : α) (event : Event) : Agenda :=
  agenda.enterAt (agenda.now + delay) event

end Agenda

end StreamPlacement
