import StreamPlacement.Arithmetic.Duration
import StreamPlacement.Solver.Answer

/-!
The party that runs the solver. It takes the requests one at a time, in the order in which they were
handed over, and answers each of them exactly once.

It gets to work only while the rest of the program waits for an answer. Then it goes through its
requests until one of them takes time; that one is finished when the program waits again. Time
passes in whole milliseconds: a span is over with the last millisecond that it has begun.
-/

namespace StreamPlacement.Solver

/-- How the solver responds to a request. -/
structure Reply where
  outcome : Except SolverFault (List Assignment)
  /-- How many milliseconds it takes; zero if the answer is there at once. -/
  delay : Nat := 0
  /-- How grave the gravest thing is that comes up while it runs, apart from its outcome. -/
  severity : Severity := .quiet

/-- Gives up on a solver that takes longer than `limit`. -/
def Reply.within (reply : Reply) (limit : Option Duration) : Reply :=
  match limit with
  | none => reply
  | some limit =>
    if limit.millis < reply.delay then
      { reply with outcome := .error (.timedOut limit.seconds), delay := limit.millis }
    else reply

/-- The answer that a reply makes to a request. A solver that failed is an error. -/
def Reply.answer (reply : Reply) (request : RequestId) : Answer :=
  match reply.outcome with
  | .ok assignments => { request, assignments, severity := reply.severity }
  | .error fault => { request, fault := some fault.message, severity := .error }

/-- A worker with a solver, and how far it has got. -/
structure Worker where
  /-- How the solver responds to each request. -/
  solve : RequestId → Request → Reply
  /-- The number of requests that were begun. -/
  started : Nat := 0
  /-- The answer of the request begun last, while it still takes its time. -/
  unfinished : Option Answer := none
  /-- The answers that nobody has taken yet, in order. -/
  ready : List Answer := []

namespace Worker

/-- Finishes the request that takes its time, if there is one. -/
def finish (worker : Worker) : Worker :=
  { worker with unfinished := none, ready := worker.ready ++ worker.unfinished.toList }

/-- Begins the given requests in order, up to the first that takes time. -/
def proceed : List Request → Worker → Worker
  | [], worker => worker
  | request :: rest, worker =>
    let id := worker.started
    let reply := worker.solve id request
    let begun := { worker with started := id + 1 }
    if 0 < reply.delay then { begun with unfinished := some (reply.answer id) }
    else proceed rest { begun with ready := worker.ready ++ [reply.answer id] }

/-- Lets the worker go on until it waits for time to pass or has nothing left to do. -/
def turn (worker : Worker) (requests : Array Request) : Worker :=
  let worker := worker.finish
  proceed (requests.toList.drop worker.started) worker

/-- Waits for an answer and takes it. There is none only if every request was answered. -/
def wait (worker : Worker) (requests : Array Request) : Option (Answer × Worker) :=
  let worker := if worker.ready.isEmpty then worker.turn requests else worker
  let worker := if worker.ready.isEmpty then worker.turn requests else worker
  match worker.ready with
  | [] => none
  | answer :: rest => some (answer, { worker with ready := rest })

/-- Takes an answer that is there already. -/
def poll (worker : Worker) : Option (Answer × Worker) :=
  match worker.ready with
  | [] => none
  | answer :: rest => some (answer, { worker with ready := rest })

end Worker

end StreamPlacement.Solver
