import StreamPlacement.Documents.Document
import StreamPlacement.Documents.Uuid
import StreamPlacement.Solver.Answer

/-!
What is exchanged with a solver, as data documents.
-/

namespace StreamPlacement.Solver

open Json

/-- A request and the identifier that its answer will carry. -/
structure RequestDocument where
  id : Uuid
  request : Request
  deriving DecidableEq, Repr

/-- An answer and the identifier of its request. -/
structure AnswerDocument where
  request : Uuid
  assignments : List Assignment
  fault : Option String
  deriving DecidableEq, Repr

/-- Two numbers. -/
def pair? : Json → Option (Nat × Nat)
  | .array [first, second] => do
    let first ← word? first
    let second ← word? second
    pure (first, second)
  | _ => none

def uuid? (value : Json) : Option Uuid := (text? value).bind fun text => Uuid.ofText? text.toList

instance : Document RosterEntry where
  read? value := do
    let given ← given? ["ap", "syntheticId", "index", "userCount"] value
    let accessPoint ← given.required "ap" word?
    let syntheticId ← given.required "syntheticId" word?
    let index ← given.required "index" word?
    let viewers ← given.required "userCount" word?
    pure { accessPoint, syntheticId, index, viewers }
  write entry := record
    [("ap", .natural entry.accessPoint), ("syntheticId", .natural entry.syntheticId),
      ("index", .natural entry.index), ("userCount", .natural entry.viewers)]

instance : Document RequestDocument where
  read? value := do
    let given ← given? ["id", "congested", "roster"] value
    let id ← given.required "id" uuid?
    let congested ← given.required "congested" pair?
    let roster ← given.required "roster" (list? Document.read?)
    pure { id, request := { congested, roster } }
  write document := record
    [("id", .ofText document.id.text),
      ("congested", .ofList .natural
        [document.request.congested.1, document.request.congested.2]),
      ("roster", .ofList Document.write document.request.roster)]

instance : Document Assignment where
  read? value := do
    let given ← given? ["groupIndex", "serverId"] value
    let group ← given.required "groupIndex" word?
    let server ← given.required "serverId" word?
    pure { group, server }
  write assignment := record
    [("groupIndex", .natural assignment.group), ("serverId", .natural assignment.server)]

instance : Document AnswerDocument where
  read? value := do
    let given ← given? ["requestId", "assignments", "error"] value
    let request ← given.required "requestId" uuid?
    let assignments ← given.required "assignments" (list? Document.read?)
    let fault ← given.optional "error" text?
    pure { request, assignments, fault }
  write document := record
    [("requestId", .ofText document.request.text),
      ("assignments", .ofList Document.write document.assignments),
      ("error", .ofOption .ofText document.fault)]

end StreamPlacement.Solver
