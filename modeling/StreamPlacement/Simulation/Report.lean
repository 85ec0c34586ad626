import StreamPlacement.Documents.Document
import StreamPlacement.Simulation.Engine

/-!
What a run has come to, as a data document.
-/

namespace StreamPlacement

open Json

/-- The counts of a run. -/
def Tally.report (tally : Tally) : Json := record
  [("admissionsAccepted", .natural tally.admitted), ("admissionsRejected", .natural tally.refused),
    ("congestionEvents", .natural tally.congestionEvents),
    ("relocations", .natural tally.relocations),
    ("escalationsSubmitted", .natural tally.escalationsSubmitted),
    ("escalationsCompleted", .natural tally.escalationsCompleted),
    ("assignmentsApplied", .natural tally.assignmentsApplied),
    ("assignmentsSkipped", .natural tally.assignmentsSkipped),
    ("serversActivated", .natural tally.serversActivated)]

/-- The whole summary. -/
def Summary.report (summary : Summary Float) : Json := record
  [("eventsProcessed", .natural summary.eventsProcessed),
    ("simulatedTimeS", .ofFloat summary.simulatedTime), ("groups", .natural summary.groups),
    ("users", .natural summary.users), ("redirections", .natural summary.redirections),
    ("servers", .natural summary.servers), ("controller", summary.tally.report)]

end StreamPlacement
