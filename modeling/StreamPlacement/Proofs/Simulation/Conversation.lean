import StreamPlacement.Proofs.Simulation.Session

/-!
A run with a worker is a session.

The worker gets on only while the loop waits, and what it does then are the solver's steps: it puts
the answer that took its time into the channel, and all that are there at once. So whatever is known
of every session holds of the run.
-/

namespace StreamPlacement

open Relation (ReflTransGen)

variable {α : Type} [Quantity α]

/-! ### The loop does not look at the worker -/

namespace Simulation

theorem arrive_worker (s : Simulation α) (worker : Option Solver.Worker) (user : UserId)
    (content : ContentId) (server : Option NodeId) :
    { s with worker }.arrive user content server =
      ({ (s.arrive user content server).1 with worker }, (s.arrive user content server).2) := by
  simp only [arrive]
  split
  · rfl
  · split
    · rfl
    · rfl
    · split
      · split <;> rfl
      · rfl

theorem measured_worker (s : Simulation α) (worker : Option Solver.Worker) :
    { s with worker }.measured = { s.measured with worker } := by
  simp only [measured]
  split <;> rfl

theorem reacted_worker (s : Simulation α) (worker : Option Solver.Worker) :
    { s with worker }.reacted = { s.reacted with worker } := by
  simp only [reacted]
  split <;> rfl

theorem endInterval_worker (s : Simulation α) (worker : Option Solver.Worker) :
    { s with worker }.endInterval = { s.endInterval with worker } := by
  rw [endInterval_eq, endInterval_eq, measured_worker, reacted_worker]
  by_cases hmore : s.measured.reacted.Continues
  · rw [if_pos hmore, if_pos (show Continues { s.measured.reacted with worker } from hmore)]
  · rw [if_neg hmore, if_neg (show ¬ Continues { s.measured.reacted with worker } from hmore)]

theorem dispatch_worker (s : Simulation α) (worker : Option Solver.Worker) (event : Event) :
    { s with worker }.dispatch event =
      ({ (s.dispatch event).1 with worker }, (s.dispatch event).2) := by
  cases event with
  | arrival user content server => exact arrive_worker s worker user content server
  | traffic e bytes => rfl
  | tick => exact congrArg (fun t : Simulation α => (t, Except.ok ())) (endInterval_worker s worker)
  | activation => rfl

theorem apply_worker (s : Simulation α) (worker : Option Solver.Worker) (answer : Solver.Answer) :
    { s with worker }.apply answer = { s.apply answer with worker } := by
  simp only [apply]
  split <;> rfl

end Simulation

/-! ### The steps of a worker -/

namespace Solver.Worker

/-- The worker is what it was, and has come to where the solver of the session is. -/
structure Attends (solve : RequestId → Request → Reply) (x : Session α) (worker : Worker) :
    Prop where
  solve_eq : worker.solve = solve
  ready_eq : worker.ready = x.channel
  started_eq : worker.started = x.answered + worker.unfinished.toList.length
  started_le : worker.started ≤ x.loop.exchange.requests.size
  unfinished : ∀ answer, worker.unfinished = some answer → ∃ request,
    x.loop.exchange.requests[x.answered]? = some request ∧
      answer = (solve x.answered request).answer x.answered

/-- The worker may respond to a request in one way for each of its positions. -/
def Responds (solve : RequestId → Request → Reply) (request : Request) (reply : Reply) : Prop :=
  ∃ id, reply = solve id request

/-- The solver may go on to `y`, and the loop does nothing meanwhile. -/
def Answers (solve : RequestId → Request → Reply) (x y : Session α) : Prop :=
  ReflTransGen (Session.Step (Responds solve)) x y ∧ y.loop = x.loop

variable {solve : RequestId → Request → Reply} {x y z : Session α} {worker next : Worker}

theorem Answers.trans (h : Answers solve x y) (h' : Answers solve y z) : Answers solve x z :=
  ⟨h.1.trans h'.1, h'.2.trans h.2⟩

theorem answers_next {request : Request}
    (hrequest : x.loop.exchange.requests[x.answered]? = some request) :
    Answers solve x
      { x with
        answered := x.answered + 1
        channel := x.channel ++ [(solve x.answered request).answer x.answered] } :=
  ⟨.single (.answer hrequest ⟨x.answered, rfl⟩), rfl⟩

theorem Attends.finish (h : worker.Attends solve x) :
    ∃ y, Answers solve x y ∧ worker.finish.Attends solve y := by
  cases hunfinished : worker.unfinished with
  | none =>
      have hstarted := h.started_eq
      rw [hunfinished] at hstarted
      refine ⟨x, ⟨.refl, rfl⟩, h.solve_eq, ?_, hstarted, h.started_le, ?_⟩
      · simp [Worker.finish, hunfinished, h.ready_eq]
      · simp [Worker.finish]
  | some answer =>
      obtain ⟨request, hrequest, rfl⟩ := h.unfinished answer hunfinished
      have hstarted := h.started_eq
      rw [hunfinished] at hstarted
      refine ⟨_, answers_next hrequest, h.solve_eq, ?_, hstarted, h.started_le, ?_⟩
      · simp [Worker.finish, hunfinished, h.ready_eq]
      · simp [Worker.finish]

/-- Whoever has nothing under way answers one request after the other, up to the first that takes
time. -/
theorem Attends.proceed {rest : List Request} (h : worker.Attends solve x)
    (hunfinished : worker.unfinished = none)
    (hrest : x.loop.exchange.requests.toList.drop worker.started = rest) :
    ∃ y, Answers solve x y ∧ (proceed rest worker).Attends solve y := by
  induction rest generalizing x worker with
  | nil => exact ⟨x, ⟨.refl, rfl⟩, h⟩
  | cons request rest ih =>
      have hstarted : worker.started = x.answered := by simpa [hunfinished] using h.started_eq
      have hlt : worker.started < x.loop.exchange.requests.size := by
        have hlen := congrArg List.length hrest
        simp only [List.length_drop, Array.length_toList, List.length_cons] at hlen
        omega
      rw [List.drop_eq_getElem_cons (by simpa using hlt)] at hrest
      obtain ⟨hfirst, hmore⟩ := List.cons.inj hrest
      -- The request that the worker begins is the one that the session's solver answers next.
      have hrequest : x.loop.exchange.requests[x.answered]? = some request := by
        rw [← hstarted, Array.getElem?_eq_getElem hlt, ← hfirst, Array.getElem_toList]
      have hreply : worker.solve worker.started request = solve x.answered request := by
        rw [h.solve_eq, hstarted]
      simp only [Worker.proceed, hreply]
      split
      · refine ⟨x, ⟨.refl, rfl⟩, h.solve_eq, h.ready_eq, by simp [hstarted], hlt, ?_⟩
        rintro answer ⟨⟩
        exact ⟨request, hrequest, by rw [hstarted]⟩
      · have hbegun : Attends solve
            { x with
              answered := x.answered + 1
              channel := x.channel ++ [(solve x.answered request).answer x.answered] }
            { worker with
              started := worker.started + 1
              ready := worker.ready ++ [(solve x.answered request).answer worker.started] } :=
          ⟨h.solve_eq, by rw [h.ready_eq, hstarted], by simp [hunfinished, hstarted], hlt,
            by simp [hunfinished]⟩
        obtain ⟨y, hanswers, hattends⟩ := ih hbegun hunfinished hmore
        exact ⟨y, (answers_next hrequest).trans hanswers, hattends⟩

theorem Attends.turn (h : worker.Attends solve x) :
    ∃ y, Answers solve x y ∧ (worker.turn x.loop.exchange.requests).Attends solve y := by
  obtain ⟨y, hfinished, hattends⟩ := h.finish
  obtain ⟨z, hproceeded, hattends'⟩ := hattends.proceed rfl rfl
  rw [hfinished.2] at hattends'
  exact ⟨z, hfinished.trans hproceeded, hattends'⟩

/-- A worker without answers is given a turn. -/
def urged (worker : Worker) (requests : Array Request) : Worker :=
  if worker.ready.isEmpty then worker.turn requests else worker

theorem wait_eq (worker : Worker) (requests : Array Request) :
    worker.wait requests = ((worker.urged requests).urged requests).poll := rfl

theorem Attends.urged (h : worker.Attends solve x) :
    ∃ y, Answers solve x y ∧ (worker.urged x.loop.exchange.requests).Attends solve y := by
  unfold Worker.urged
  split
  · exact h.turn
  · exact ⟨x, ⟨.refl, rfl⟩, h⟩

omit [Quantity α] in
theorem Attends.poll (h : worker.Attends solve x) {answer : Answer}
    (htaken : worker.poll = some (answer, next)) :
    ∃ rest, x.channel = answer :: rest ∧ next.Attends solve { x with channel := rest } := by
  unfold Worker.poll at htaken
  split at htaken
  · cases htaken
  · next answer' rest hready =>
      cases htaken
      exact ⟨rest, h.ready_eq ▸ hready, h.solve_eq, rfl, h.started_eq, h.started_le, h.unfinished⟩

/-- Waiting for an answer lets the solver go on until there is one. -/
theorem Attends.wait (h : worker.Attends solve x) {answer : Answer}
    (htaken : worker.wait x.loop.exchange.requests = some (answer, next)) :
    ∃ y rest, Answers solve x y ∧ y.channel = answer :: rest ∧
      next.Attends solve { y with channel := rest } := by
  obtain ⟨y, hfirst, honce⟩ := h.urged
  obtain ⟨z, hsecond, htwice⟩ := honce.urged
  rw [wait_eq] at htaken
  rw [hfirst.2] at htwice
  obtain ⟨rest, hchannel, hnext⟩ := htwice.poll htaken
  exact ⟨z, rest, hfirst.trans hsecond, hchannel, hnext⟩

/-! ### Waiting in vain -/

theorem ready_eq_nil_of_poll (h : worker.poll = none) : worker.ready = [] := by
  unfold Worker.poll at h
  split at h
  · assumption
  · cases h

theorem ready_prefix_proceed (rest : List Request) (worker : Worker) :
    worker.ready <+: (Worker.proceed rest worker).ready := by
  induction rest generalizing worker with
  | nil => exact List.prefix_rfl
  | cons request rest ih =>
      simp only [Worker.proceed]
      split
      · exact List.prefix_rfl
      · exact (List.prefix_append _ _).trans (ih { worker with
          started := worker.started + 1
          ready := worker.ready ++ [(worker.solve worker.started request).answer worker.started] })

/-- A worker that has begun requests and has no answer has one under way. -/
theorem unfinished_of_proceed {rest : List Request} (hbegun : rest ≠ [])
    (hready : (Worker.proceed rest worker).ready = []) :
    (Worker.proceed rest worker).unfinished ≠ none := by
  obtain ⟨request, rest, rfl⟩ := List.exists_cons_of_ne_nil hbegun
  simp only [Worker.proceed] at hready ⊢
  split at hready
  · next hdelay => simp [hdelay]
  · have hprefix := hready ▸ ready_prefix_proceed rest { worker with
      started := worker.started + 1
      ready := worker.ready ++ [(worker.solve worker.started request).answer worker.started] }
    simp at hprefix

/-- A worker that has no answer after its turn had none under way before it. -/
theorem unfinished_of_turn {requests : Array Request} (hready : (worker.turn requests).ready = []) :
    worker.unfinished = none := by
  have hprefix : worker.finish.ready <+: [] := hready ▸ ready_prefix_proceed _ worker.finish
  simpa [Worker.finish] using (List.append_eq_nil_iff.mp (List.prefix_nil.mp hprefix)).2

theorem turn_of_urged {requests : Array Request} (hready : (worker.urged requests).ready = []) :
    worker.ready = [] ∧ worker.urged requests = worker.turn requests := by
  unfold urged at hready ⊢
  split at hready
  · next hempty => exact ⟨List.isEmpty_iff.mp hempty, if_pos hempty⟩
  · next hsome => exact absurd (List.isEmpty_iff.mpr hready) hsome

omit [Quantity α] in
/-- If waiting is in vain, then there is no answer and no request without one: whoever begins a
request in the first turn has an answer by the second. -/
theorem Attends.answered_of_wait (h : worker.Attends solve x)
    (hvain : worker.wait x.loop.exchange.requests = none) :
    x.channel = [] ∧ x.loop.exchange.requests.size ≤ x.answered := by
  obtain ⟨honce, hsecond⟩ := turn_of_urged (ready_eq_nil_of_poll (wait_eq _ _ ▸ hvain))
  obtain ⟨hready, hfirst⟩ := turn_of_urged honce
  rw [hfirst] at honce
  have hidle : (worker.turn x.loop.exchange.requests).unfinished = none := by
    apply unfinished_of_turn
    rw [← hfirst, ← hsecond]
    exact ready_eq_nil_of_poll (wait_eq _ _ ▸ hvain)
  refine ⟨h.ready_eq ▸ hready, ?_⟩
  by_cases hrest : x.loop.exchange.requests.toList.drop worker.finish.started = []
  · have hstarted := h.started_eq
    rw [unfinished_of_turn honce] at hstarted
    have hlen : x.loop.exchange.requests.size ≤ worker.started := by
      simpa [Worker.finish] using hrest
    simpa [hstarted] using hlen
  · exact absurd hidle (unfinished_of_proceed hrest honce)

end Solver.Worker

/-! ### Runs -/

namespace Simulation

open Solver (Worker)

variable {solve : Solver.RequestId → Solver.Request → Solver.Reply} {x : Session α}
  {s : Simulation α}

/-- The run has come to where the session is. -/
structure Plays (solve : Solver.RequestId → Solver.Request → Solver.Reply) (x : Session α)
    (s : Simulation α) : Prop where
  sound : x.Sound (Worker.Responds solve)
  attended : ∃ worker, s = { x.loop.plane with worker := some worker } ∧ worker.Attends solve x

/-- What a turn of the loop means for a run with a worker. -/
theorem step?_worker (l : Loop α) (worker : Option Worker) :
    { l.plane with worker }.step? =
      match l.turn.phase with
      | .ended (.failed fault) => some ({ l.turn.plane with worker }, .error fault)
      | .collecting wait false =>
        some (({ l.turn.plane with worker } : Simulation α).collect wait, .ok ())
      | _ => none := by
  simp only [step?, Loop.turn]
  cases l.plane.agenda.pop? with
  | none => rfl
  | some popped =>
      obtain ⟨next, agenda⟩ := popped
      have hdispatch := dispatch_worker { l.plane with agenda } worker next.event
      by_cases hlate : l.plane.settings.stopTime < Agenda.seconds next.time
      · simp only [hlate, if_true]
      · simp only [hlate, if_false, hdispatch]
        obtain ⟨plane, outcome, hresult⟩ : ∃ plane outcome,
            { l.plane with agenda }.dispatch next.event = (plane, outcome) := ⟨_, _, rfl⟩
        simp only [hresult]
        cases outcome <;> rfl

omit [Quantity α] in
/-- Everything that is outstanding is awaited. -/
theorem Plays.outstanding_eq (h : s.Plays solve x) :
    s.outstanding = x.loop.exchange.pending.length := by
  obtain ⟨worker, rfl, hattends⟩ := h.attended
  have hids := congrArg List.length h.sound.channel_eq
  have hstarted := hattends.started_eq
  have hsize := hattends.started_le
  have hcompleted := h.sound.completed_le
  rw [List.length_map, List.length_range'] at hids
  rw [h.sound.inOrder.pending_eq, List.length_range']
  simp only [outstanding, hattends.ready_eq]
  show x.loop.exchange.requests.size - worker.started + _ + _ = _
  omega

/-- Taking the next answer is up to the solver first, and then to the loop. -/
theorem Plays.take (h : s.Plays solve x) {wait last : Bool}
    (hphase : x.loop.phase = .collecting wait last) {answer : Solver.Answer} {s' : Simulation α}
    (hnext : s.nextAnswer? wait = some (answer, s')) :
    ∃ y, ReflTransGen (Session.Step (Worker.Responds solve)) x y ∧
      y.loop.phase = .collecting wait last ∧ (s'.apply answer).Plays solve y ∧
      y.loop.exchange.pending.length < x.loop.exchange.pending.length := by
  obtain ⟨worker, rfl, hattends⟩ := h.attended
  obtain ⟨worker', next, hworker, htaken, rfl⟩ := nextAnswer?_eq_some hnext
  obtain rfl := Option.some.inj hworker
  obtain ⟨y, rest, ⟨hanswers, hloop⟩, hchannel, hnext⟩ : ∃ y rest, Worker.Answers solve x y ∧
      y.channel = answer :: rest ∧ next.Attends solve { y with channel := rest } := by
    split at htaken
    · exact hattends.wait htaken
    · obtain ⟨rest, hchannel, hnext⟩ := hattends.poll htaken
      exact ⟨x, rest, ⟨.refl, rfl⟩, hchannel, hnext⟩
  have hsound : y.Sound (Worker.Responds solve) := h.sound.steps hanswers
  have hcollecting : y.loop.phase = .collecting wait last := hloop ▸ hphase
  have hexchange := hsound.exchange_receive hchannel
  refine ⟨_, hanswers.tail (.take hcollecting hchannel), hcollecting,
    ⟨hsound.take hcollecting hchannel, next, ?_, ?_⟩, ?_⟩
  · rw [← hloop]
    exact apply_worker y.loop.plane (some next) answer
  · refine ⟨hnext.solve_eq, hnext.ready_eq, hnext.started_eq, ?_, ?_⟩
    · rw [hexchange]
      exact hnext.started_le
    · rw [hexchange]
      exact hnext.unfinished
  · obtain ⟨hid, -, -⟩ := hsound.next hchannel
    have hawaited := hsound.awaited (hchannel ▸ List.mem_cons_self)
    have hpos := List.length_pos_of_mem hawaited
    rw [hid] at hawaited
    rw [hexchange, ← hloop, Exchange.accept, List.length_erase_of_mem hawaited]
    omega

omit [Quantity α] in
/-- If there is no answer to take, then there is none in the channel, and none to wait for. -/
theorem Plays.nothing (h : s.Plays solve x) {wait : Bool} (hnext : s.nextAnswer? wait = none) :
    x.channel = [] ∧ (wait = true → x.loop.exchange.pending = []) := by
  obtain ⟨worker, rfl, hattends⟩ := h.attended
  simp only [nextAnswer?, Option.bind_some, Option.map_eq_none_iff] at hnext
  split at hnext
  · obtain ⟨hchannel, hanswered⟩ := hattends.answered_of_wait hnext
    refine ⟨hchannel, fun _ => h.sound.inOrder.pending_eq_nil_iff.mpr ?_⟩
    have hids := congrArg List.length h.sound.channel_eq
    have hcompleted := h.sound.completed_le
    have hsize := h.sound.inOrder.completed_le
    rw [hchannel, List.map_nil, List.length_nil, List.length_range'] at hids
    omega
  · next hwait =>
      refine ⟨hattends.ready_eq ▸ Worker.ready_eq_nil_of_poll hnext, ?_⟩
      rintro rfl
      have hempty : x.loop.plane.placement.pending = [] := by simpa using hwait
      exact hempty

/-- Answers are taken until there is none left to take. -/
theorem Plays.collectUpTo (h : s.Plays solve x) {wait last : Bool}
    (hphase : x.loop.phase = .collecting wait last) {count : Nat}
    (hcount : x.loop.exchange.pending.length ≤ count) :
    ∃ y, ReflTransGen (Session.Step (Worker.Responds solve)) x y ∧
      y.loop.phase = .collecting wait last ∧ (collectUpTo wait count s).Plays solve y ∧
      y.channel = [] ∧ (wait = true → y.loop.exchange.pending = []) := by
  induction count generalizing x s with
  | zero =>
      have hpending := List.length_eq_zero_iff.mp (Nat.le_zero.mp hcount)
      exact ⟨x, .refl, hphase, h, h.sound.channel_of_settled hpending, fun _ => hpending⟩
  | succ count ih =>
      unfold Simulation.collectUpTo
      split
      · next hnext => exact ⟨x, .refl, hphase, h, h.nothing hnext⟩
      · next answer s' hnext =>
          -- There is one less to await, so the count is enough for the rest.
          obtain ⟨y, htake, hcollecting, hplays, hless⟩ := h.take hphase hnext
          obtain ⟨z, hmore, hdone⟩ := ih hplays hcollecting (by omega)
          exact ⟨z, htake.trans hmore, hdone⟩

/-- The loop takes answers, and goes on. -/
theorem Plays.collect (h : s.Plays solve x) {wait last : Bool}
    (hphase : x.loop.phase = .collecting wait last) :
    ∃ y, ReflTransGen (Session.Step (Worker.Responds solve)) x y ∧
      (s.collect wait).Plays solve y ∧
      y.loop.phase = if last then .ended (.finished (s.collect wait).summary) else .ready := by
  obtain ⟨y, hsteps, hcollecting, hplays, hchannel, hdone⟩ :=
    h.collectUpTo hphase h.outstanding_eq.ge
  obtain ⟨worker, heq, hattends⟩ := hplays.attended
  refine ⟨_, hsteps.tail (.leave hcollecting hchannel hdone),
    ⟨hplays.sound.leave hcollecting hdone, worker, heq, ?_⟩, ?_⟩
  · exact ⟨hattends.solve_eq, hattends.ready_eq, hattends.started_eq, hattends.started_le,
      hattends.unfinished⟩
  · rw [Simulation.collect, heq]
    rfl

theorem Plays.turn (h : s.Plays solve x) (hready : x.loop.phase = .ready) :
    ∃ worker, s = { x.loop.plane with worker := some worker } ∧
      ({ x.loop.turn.plane with worker := some worker } : Simulation α).Plays solve
        { x with loop := x.loop.turn } := by
  obtain ⟨worker, heq, hattends⟩ := h.attended
  obtain ⟨hasks, -, -, -, -⟩ := x.loop.opens_turn
  refine ⟨worker, heq, h.sound.turn hready, worker, rfl, hattends.solve_eq, hattends.ready_eq,
    hattends.started_eq, hattends.started_le.trans hasks.size_le, fun answer hanswer => ?_⟩
  obtain ⟨request, hrequest, hreply⟩ := hattends.unfinished answer hanswer
  exact ⟨request, hasks.requests_of hrequest, hreply⟩

/-- A run that ends is a session that ends the same. -/
theorem Plays.runFor (h : s.Plays solve x) (hready : x.loop.phase = .ready) {turns : Nat}
    (hends : (s.runFor turns).2 ≠ .endless) :
    ∃ y, ReflTransGen (Session.Step (Worker.Responds solve)) x y ∧
      (s.runFor turns).1.Plays solve y ∧ y.loop.phase = .ended (s.runFor turns).2 := by
  induction turns generalizing x s with
  | zero => exact absurd rfl hends
  | succ turns ih =>
      obtain ⟨worker, rfl, hturned⟩ := h.turn hready
      have hturn : Session.Step (Worker.Responds solve) x { x with loop := x.loop.turn } :=
        .turn hready
      unfold Simulation.runFor at hends ⊢
      rw [step?_worker] at hends ⊢
      obtain ⟨-, -, -, -, ⟨fault, hphase, -⟩ | ⟨hphase, hplane⟩ | hphase⟩ := x.loop.opens_turn
      all_goals simp only [hphase] at hends ⊢
      · exact ⟨_, .single hturn, hturned, hphase⟩
      · rw [hplane] at hturned
        obtain ⟨y, hsteps, hplays, hend⟩ := hturned.collect hphase
        exact ⟨y, .head hturn hsteps, hplays, hend⟩
      · obtain ⟨y, hsteps, hplays, hnext⟩ := hturned.collect hphase
        obtain ⟨z, hmore, hend⟩ := ih hplays hnext hends
        exact ⟨z, (hsteps.head hturn).trans hmore, hend⟩

end Simulation

namespace Launch

open Solver (Worker)

/-- A run that ends with a worker that has not begun is a session that ends the same. -/
theorem session_of_run (l : Launch α) (hstrategy : l.deployment.strategy = .optimizer true)
    {worker : Worker} (hworker : l.worker = some worker)
    (hfresh : worker = { solve := worker.solve }) (hends : l.start.run.2 ≠ .endless) :
    ∃ x, l.CanReach (Worker.Responds worker.solve) x ∧ x.loop.phase = .ended l.start.run.2 ∧
      ∃ worker', l.start.run.1 = { x.loop.plane with worker := worker' } := by
  have hattends : worker.Attends worker.solve l.opening := by
    obtain ⟨solve, started, unfinished, ready⟩ := worker
    obtain ⟨-, rfl, rfl, rfl⟩ := Worker.mk.inj hfresh
    exact ⟨rfl, rfl, rfl, Nat.zero_le _, nofun⟩
  have hplays : l.start.Plays worker.solve l.opening := by
    refine ⟨sound_opening hstrategy, worker, ?_, hattends⟩
    rw [← hworker, ← l.worker_start]
    rfl
  obtain ⟨x, hsteps, ⟨-, worker', heq, -⟩, hend⟩ := hplays.runFor rfl hends
  exact ⟨x, hsteps, hend, some worker', heq⟩

/-- A run without a solver is a session: behind an event there is nothing to take. -/
theorem canReach_of_reaches (l : Launch α) (hworker : l.worker = none)
    (hblocking : l.settings.blocking = false) {respond : Solver.Request → Solver.Reply → Prop}
    {s : Simulation α} (h : l.start.Reaches s) :
    ∃ x, l.CanReach respond x ∧ x.loop.plane = s ∧ s.worker = none ∧ x.loop.phase = .ready ∧
      x.channel = [] := by
  induction h with
  | refl => exact ⟨l.opening, .refl, rfl, l.worker_start.trans hworker, rfl, rfl⟩
  | tail _ hstep ih =>
      obtain ⟨x, hreach, rfl, hnone, hready, hchannel⟩ := ih
      have hpolls := (congrArg RunSettings.blocking (CanReach.settings_eq hreach)).trans hblocking
      have hgone : x.loop.turn.plane.worker = none := by
        rcases x.loop.plane_turn with ⟨heq, -⟩ | ⟨next, agenda, processed, heq, -⟩
        · rw [heq, hnone]
        · rw [heq]
          have hhandled := Simulation.handled_dispatch { x.loop.plane with agenda } next.event
          exact hhandled.worker_eq.trans hnone
      -- Setting a worker to what it is already changes nothing.
      have hsame : ∀ {plane : Simulation α}, plane.worker = none →
          { plane with worker := none } = plane := by
        rintro plane hplane
        rw [← hplane]
      have hturned := Simulation.step?_worker x.loop none
      rw [hsame hnone, hstep, hsame hgone] at hturned
      obtain ⟨-, -, -, -, ⟨fault, hphase, -⟩ | ⟨hphase, -⟩ | hphase⟩ := x.loop.opens_turn
      all_goals simp only [hphase] at hturned
      · cases hturned
      · cases hturned
      · rw [Simulation.collect_of_no_worker hgone] at hturned
        obtain ⟨rfl, -⟩ := Prod.mk.inj (Option.some.inj hturned)
        have hleave : Session.Step respond { x with loop := x.loop.turn }
            { x with loop := x.loop.turn.leave false } :=
          .leave hphase hchannel fun hwait => absurd (hwait.symm.trans hpolls) nofun
        exact ⟨_, (hreach.tail (.turn hready)).tail hleave, rfl, hgone, rfl, hchannel⟩

/-- Every request is answered once. At every moment, also in the middle of an event, the requests
that were submitted are those that were completed and those that are pending. In a session with a
solver that answers in order, whenever it pleases, the answers that were taken are those of the
first requests, one each, and whatever is in the channel is awaited and will be accepted. Nothing is
pending when the run has finished, nor in a blocking run between two events or after one that has
failed, and until the run is over one of the parties can go on. A run with a worker is such a
session. -/
theorem answered_once (l : Launch α) (hstrategy : l.deployment.strategy = .optimizer true) :
    (∀ ops, let p := l.deployment.after ops
      p.tally.escalationsSubmitted = p.tally.escalationsCompleted + p.pending.length) ∧
    (∀ {respond : Solver.Request → Solver.Reply → Prop} {x : Session α}, l.CanReach respond x →
      let p := x.loop.plane.placement
      p.tally.escalationsSubmitted = p.tally.escalationsCompleted + p.pending.length ∧
      p.tally.escalationsSubmitted = p.requests.size ∧
      x.loop.taken = List.range p.tally.escalationsCompleted ∧
      (∀ answer ∈ x.channel, answer.request ∈ p.pending) ∧
      (∀ summary, x.loop.phase = .ended (.finished summary) →
        p.pending = [] ∧ x.loop.taken = List.range p.tally.escalationsSubmitted) ∧
      (l.settings.blocking = true → (∀ wait last, x.loop.phase ≠ .collecting wait last) →
        p.pending = []) ∧
      ((∀ request, ∃ reply, respond request reply) →
        (∀ result, x.loop.phase ≠ .ended result) → ∃ y, Session.Step respond x y)) ∧
    ∀ worker, l.worker = some worker → worker = { solve := worker.solve } →
      ∀ s summary, l.start.run = (s, .finished summary) →
        s.placement.pending = [] ∧
          s.placement.tally.escalationsSubmitted = s.placement.tally.escalationsCompleted := by
  refine ⟨l.deployment.tallied_after, fun {respond x} hreach => ?_, ?_⟩
  · have hsound := hreach.sound hstrategy
    refine ⟨hsound.inOrder.tallied, hsound.inOrder.submitted_eq, hsound.taken_eq,
      fun answer hanswer => hsound.awaited hanswer, fun summary hfinished => ?_,
      fun hblocking hboundary => ?_, fun hresponds hrunning => hsound.progress hresponds hrunning⟩
    · have hpending := hsound.finished summary hfinished
      refine ⟨hpending, hsound.taken_eq.trans (congrArg List.range ?_)⟩
      rw [hsound.inOrder.pending_eq_nil_iff.mp hpending]
      exact hsound.inOrder.submitted_eq.symm
    · refine hsound.settled ?_ hboundary
      rw [hreach.settings_eq]
      exact hblocking
  · intro worker hworker hfresh s summary hrun
    obtain ⟨x, hreach, hend, worker', heq⟩ := l.session_of_run hstrategy hworker hfresh
      (by rw [hrun]; nofun)
    rw [hrun] at hend heq
    obtain rfl := heq
    have hsound := hreach.sound hstrategy
    have hpending := hsound.finished summary hend
    refine ⟨hpending, ?_⟩
    have htallied := hsound.inOrder.tallied
    rw [Exchange.Tallied, hpending] at htallied
    exact htallied

/-! ### A small session -/

/-- The group is sent on to the next server. -/
def relay.solve (_ : Solver.Request) : Solver.Reply := { outcome := .ok [⟨0, 1⟩] }

/-- Two viewers come to the line, whose first link has room for one of them. -/
def relay : Launch Rat where
  deployment := Deployment.line
  monitor := { settings := { interval := 1 } }
  worker := some { solve := fun _ => relay.solve }
  worker_of_greedy h := by cases h
  settings := { origin := ⟨0⟩, stopTime := 1, blocking := true }
  events := [⟨0, .arrival ⟨0⟩ ⟨7⟩ none⟩, ⟨0, .arrival ⟨1⟩ ⟨7⟩ none⟩]

/-- The second viewer makes for one request, which is answered by the end of the run. -/
theorem answered_once_on_relay :
    relay.deployment.strategy = .optimizer true ∧
      relay.start.run.1.placement.tally.escalationsSubmitted = 1 ∧
      relay.start.run.1.placement.tally.escalationsCompleted = 1 ∧
      relay.start.run.1.placement.pending = [] := by
  have hsubmitted : relay.start.run.1.placement.tally.escalationsSubmitted = 1 := by
    decide +kernel
  have hfinished : (match relay.start.run.2 with
      | .finished _ => true
      | _ => false) = true := by decide +kernel
  rcases hrun : relay.start.run with ⟨s, result⟩
  rw [hrun] at hsubmitted hfinished
  cases result with
  | finished summary =>
      obtain ⟨-, -, hall⟩ := relay.answered_once rfl
      obtain ⟨hpending, hequal⟩ := hall _ rfl rfl s summary hrun
      exact ⟨rfl, hsubmitted, hequal.symm.trans hsubmitted, hpending⟩
  | failed fault => cases hfinished
  | endless => cases hfinished

end Launch

end StreamPlacement
