import StreamPlacement.Documents.Document
import StreamPlacement.Simulation.Event

/-!
Recorded workloads: viewer arrivals, measured traffic, and switching on servers at a set time. The
kind of an event is its member `type`.
-/

namespace StreamPlacement

open Json

/-- An event of a recorded workload. The end of a monitor interval is none of them: it is the
program's own. -/
inductive TraceEvent
  | viewerArrival (time : Float) (user : UserId) (content : ContentId) (server : Option NodeId)
  | linkTraffic (time : Float) (src dst : NodeId) (bytes : Nat)
  | activateServers (time : Float)

/-- A recorded workload. -/
structure Trace where
  events : List TraceEvent

namespace TraceEvent

/-- The event that a value spells which is nested in `outerDepth` others. -/
def read? (outerDepth : Nat) (value : Json) : Option TraceEvent := do
  let (tag, fields) ← tagged? "type" outerDepth value
  match tag with
  | "viewerArrival" =>
    let given ← given? ["atS", "user", "content", "server"] fields
    let time ← given.required "atS" float?
    let user ← given.required "user" Document.read?
    let content ← given.required "content" Document.read?
    let server ← given.defaulted "server" (nullable? Document.read?) none
    pure (.viewerArrival time user content server)
  | "linkTraffic" =>
    let given ← given? ["atS", "src", "dst", "bytes"] fields
    let time ← given.required "atS" float?
    let src ← given.required "src" Document.read?
    let dst ← given.required "dst" Document.read?
    let bytes ← given.required "bytes" word?
    pure (.linkTraffic time src dst bytes)
  | "activateServers" =>
    let given ← given? ["atS"] fields
    let time ← given.required "atS" float?
    pure (.activateServers time)
  | _ => none

def write : TraceEvent → Json
  | viewerArrival time user content server => record
    [("type", .ofText "viewerArrival"), ("atS", .ofFloat time), ("user", Document.write user),
      ("content", Document.write content), ("server", .ofOption Document.write server)]
  | linkTraffic time src dst bytes => record
    [("type", .ofText "linkTraffic"), ("atS", .ofFloat time), ("src", Document.write src),
      ("dst", Document.write dst), ("bytes", .natural bytes)]
  | activateServers time => record
    [("type", .ofText "activateServers"), ("atS", .ofFloat time)]

instance : Document TraceEvent := ⟨read? 0, write⟩

/-- The event of a run that it stands for. -/
def timed : TraceEvent → TimedEvent Float
  | viewerArrival time user content server => ⟨time, .arrival user content server⟩
  | linkTraffic time src dst bytes => ⟨time, .traffic (src, dst) bytes⟩
  | activateServers time => ⟨time, .activation⟩

end TraceEvent

namespace Trace

/-- Every event is nested in the list of events and in the trace. -/
instance : Document Trace where
  read? value := do
    let given ← given? ["events"] value
    let events ← given.required "events" (list? (TraceEvent.read? 2))
    pure { events }
  write trace := record [("events", .ofList TraceEvent.write trace.events)]

/-- The events of a run, in the order in which they were recorded. -/
def timed (trace : Trace) : List (TimedEvent Float) := trace.events.map TraceEvent.timed

end Trace

end StreamPlacement
