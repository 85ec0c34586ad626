import StreamPlacement.Proofs.Placement.Exchange
import StreamPlacement.Proofs.Simulation.Launch

/-!
The loop and the solver as two parties.

The solver takes the requests in the order in which they were handed over and answers each of them
once. Its answers wait in a channel until the loop takes them, first come, first served; when an
answer arrives there is not determined. The loop looks at the channel between events only, so an
answer that arrives while an event is handled might as well have arrived right behind it. What is
known of any such session follows from a single invariant: the channel holds the answers to the
requests that come right behind those whose answers were accepted.
-/

namespace StreamPlacement

variable {α : Type} [Quantity α]

/-! ### The parties -/

/-- Where the loop is. -/
inductive Phase (α : Type)
  /-- Between two events. -/
  | ready
  /-- Taking answers: whatever is there, or if `wait` is set all that are awaited. If this is the
  `last` time, the run ends with it. -/
  | collecting (wait last : Bool)
  | ended (result : RunResult α)

/-- The loop, with the events that it dispatched and the requests whose answers it took. -/
structure Loop (α : Type) where
  plane : Simulation α
  phase : Phase α := .ready
  handled : List Appointment := []
  taken : List Solver.RequestId := []

namespace Loop

/-- Dispatches the soonest event, or begins to take the last answers. -/
def turn (l : Loop α) : Loop α :=
  match l.plane.agenda.pop? with
  | none => { l with phase := .collecting true true }
  | some (next, agenda) =>
    if l.plane.settings.stopTime < Agenda.seconds next.time then
      { l with phase := .collecting true true }
    else
      match { l.plane with agenda }.dispatch next.event with
      | (plane, .error fault) =>
        { l with plane, phase := .ended (.failed fault), handled := l.handled ++ [next] }
      | (plane, .ok ()) =>
        { l with
          plane := { plane with processed := plane.processed + 1 }
          phase := .collecting plane.settings.blocking false
          handled := l.handled ++ [next] }

/-- Takes an answer and applies it. -/
def receive (l : Loop α) (answer : Solver.Answer) : Loop α :=
  { l with plane := l.plane.apply answer, taken := l.taken ++ [answer.request] }

/-- Leaves the channel. -/
def leave (l : Loop α) (last : Bool) : Loop α :=
  { l with phase := if last then .ended (.finished l.plane.summary) else .ready }

/-- What the loop has on record about the solver. -/
abbrev exchange (l : Loop α) : Exchange := l.plane.placement.exchange

end Loop

/-- The loop, the number of requests that the solver has answered, and the answers that the loop has
not taken, in order. -/
structure Session (α : Type) where
  loop : Loop α
  answered : Nat := 0
  channel : List Solver.Answer := []

/-- The steps of both parties. `respond` says how the solver may respond to a request. -/
inductive Session.Step (respond : Solver.Request → Solver.Reply → Prop) :
    Session α → Session α → Prop
  /-- The solver answers its next request. -/
  | answer {x : Session α} {request : Solver.Request} {reply : Solver.Reply}
      (asked : x.loop.exchange.requests[x.answered]? = some request)
      (responds : respond request reply) :
      Step respond x
        { x with
          answered := x.answered + 1
          channel := x.channel ++ [reply.answer x.answered] }
  | turn {x : Session α} (ready : x.loop.phase = .ready) :
      Step respond x { x with loop := x.loop.turn }
  | take {x : Session α} {wait last : Bool} {answer : Solver.Answer} {rest : List Solver.Answer}
      (collecting : x.loop.phase = .collecting wait last) (there : x.channel = answer :: rest) :
      Step respond x { x with loop := x.loop.receive answer, channel := rest }
  /-- Without answers the loop goes on, unless it waits for one. -/
  | leave {x : Session α} {wait last : Bool}
      (collecting : x.loop.phase = .collecting wait last) (nothing : x.channel = [])
      (done : wait = true → x.loop.exchange.pending = []) :
      Step respond x { x with loop := x.loop.leave last }

/-- The session before its first step. -/
def Launch.opening (l : Launch α) : Session α := { loop := { plane := l.start } }

/-- A session that was opened can have come to this. -/
abbrev Launch.CanReach (l : Launch α) (respond : Solver.Request → Solver.Reply → Prop) :
    Session α → Prop :=
  Relation.ReflTransGen (Session.Step respond) l.opening

/-! ### What the loop does to its record -/

theorem Placement.Handles.asks {p q : Placement α} (h : p.Handles q) :
    p.exchange.Asks q.exchange := by
  obtain ⟨ops, hops, rfl⟩ := h
  refine List.foldlRecOn (motive := fun q : Placement α => p.exchange.Asks q.exchange) ops _ .refl
    fun q hq op hop => hq.trans ?_
  cases op with
  | arrive accessPoint requested content user => exact Placement.asks_arrive q _ _ _ _
  | react e => exact Placement.asks_react q e
  | activate => exact .refl
  | relieve | reallocate | escalate | complete | hangUp => exact (hops _ hop).elim

/-- With a solver that listens, an event that fails has not got as far as a request. -/
theorem Simulation.exchange_of_failed {s s' : Simulation α} {event : Event} {fault : Fault}
    (hlistening : s.placement.strategy = .optimizer true)
    (h : s.dispatch event = (s', .error fault)) : s'.placement.exchange = s.placement.exchange := by
  cases event with
  | arrival user content server =>
      simp only [dispatch, arrive] at h
      split at h
      · cases h
        rfl
      · split at h
        · cases h
          rfl
        · cases h
        · next harrive =>
            split at h
            · obtain ⟨_, _, _, _, _, rfl⟩ := Placement.admitViewer_eq harrive
              simp [Placement.react, Placement.escalate, hlistening] at h
            · cases h
  | traffic | tick | activation => cases h

@[simp] theorem Simulation.exchange_apply (s : Simulation α) (answer : Solver.Answer) :
    (s.apply answer).placement.exchange = (s.placement.complete answer).1.exchange := by
  unfold apply
  dsimp only
  split <;> rfl

@[simp] theorem Simulation.settings_apply (s : Simulation α) (answer : Solver.Answer) :
    (s.apply answer).settings = s.settings := by
  obtain ⟨placement, severity, heq⟩ := s.apply_eq answer
  rw [heq]

@[simp] theorem Simulation.monitor_apply (s : Simulation α) (answer : Solver.Answer) :
    (s.apply answer).monitor = s.monitor := by
  obtain ⟨placement, severity, heq⟩ := s.apply_eq answer
  rw [heq]

namespace Loop

/-- All that a turn can do. -/
theorem turn_cases (l : Loop α) :
    l.turn = { l with phase := .collecting true true } ∨
      ∃ next agenda, l.plane.agenda.pop? = some (next, agenda) ∧
        ((∃ plane fault, { l.plane with agenda }.dispatch next.event = (plane, .error fault) ∧
            l.turn =
              { l with plane, phase := .ended (.failed fault), handled := l.handled ++ [next] }) ∨
          ∃ plane, { l.plane with agenda }.dispatch next.event = (plane, .ok ()) ∧
            l.turn =
              { l with
                plane := { plane with processed := plane.processed + 1 }
                phase := .collecting plane.settings.blocking false
                handled := l.handled ++ [next] }) := by
  unfold turn
  split
  · exact .inl rfl
  · next next agenda hpop =>
      split
      · exact .inl rfl
      · refine .inr ⟨next, agenda, hpop, ?_⟩
        split
        · next plane fault heq => exact .inl ⟨plane, fault, heq, rfl⟩
        · next plane heq => exact .inr ⟨plane, heq, rfl⟩

/-- Either a turn dispatches an event, and puts it on record, or it leaves the control plane as it
was. -/
theorem plane_turn (l : Loop α) :
    (l.turn.plane = l.plane ∧ l.turn.handled = l.handled) ∨
      ∃ next agenda processed,
        l.turn.plane = { ({ l.plane with agenda }.dispatch next.event).1 with processed } ∧
          l.turn.handled = l.handled ++ [next] := by
  rcases l.turn_cases with heq | ⟨next, agenda, -, ⟨plane, fault, hdispatch, heq⟩ |
    ⟨plane, hdispatch, heq⟩⟩
  · rw [heq]
    exact .inl ⟨rfl, rfl⟩
  · refine .inr ⟨next, agenda, plane.processed, ?_⟩
    rw [heq, hdispatch]
    exact ⟨rfl, rfl⟩
  · refine .inr ⟨next, agenda, plane.processed + 1, ?_⟩
    rw [heq, hdispatch]
    exact ⟨rfl, rfl⟩

/-- A turn hands over requests, and then the loop takes answers. Nothing happens in it if it is the
last or, with a solver that listens, if it fails. -/
structure Opens (l t : Loop α) : Prop where
  asks : l.exchange.Asks t.exchange
  taken_eq : t.taken = l.taken
  settings_eq : t.plane.settings = l.plane.settings
  handled_prefix : l.handled <+: t.handled
  phase_cases : (∃ fault, t.phase = .ended (.failed fault) ∧
      (l.exchange.strategy = .optimizer true → t.exchange = l.exchange)) ∨
    t.phase = .collecting true true ∧ t.plane = l.plane ∨
      t.phase = .collecting l.plane.settings.blocking false

theorem opens_turn (l : Loop α) : l.Opens l.turn := by
  rcases l.turn_cases with heq | ⟨next, agenda, -, ⟨plane, fault, hdispatch, heq⟩ |
    ⟨plane, hdispatch, heq⟩⟩
  · rw [heq]
    exact ⟨.refl, rfl, rfl, List.prefix_rfl, .inr (.inl ⟨rfl, rfl⟩)⟩
  all_goals
    have hasks := (Simulation.handles_dispatch { l.plane with agenda } next.event).asks
    have hsettings := (Simulation.handled_dispatch { l.plane with agenda } next.event).settings_eq
    rw [hdispatch] at hasks hsettings
    rw [heq]
  · exact ⟨hasks, rfl, hsettings, List.prefix_append _ _,
      .inl ⟨fault, rfl, fun hlistening =>
        Simulation.exchange_of_failed (s := { l.plane with agenda }) hlistening hdispatch⟩⟩
  · refine ⟨hasks, rfl, hsettings, List.prefix_append _ _, .inr (.inr ?_)⟩
    rw [show plane.settings = l.plane.settings from hsettings]

end Loop

/-! ### The invariant -/

/-- The answers of the solver are accepted one after the other, and those in the channel are the
next. Once the loop has waited for answers, it has them all. -/
structure Session.Sound (respond : Solver.Request → Solver.Reply → Prop) (x : Session α) :
    Prop where
  inOrder : x.loop.exchange.InOrder
  taken_eq : x.loop.taken = List.range x.loop.exchange.completed
  completed_le : x.loop.exchange.completed ≤ x.answered
  answered_le : x.answered ≤ x.loop.exchange.requests.size
  channel_eq : x.channel.map Solver.Answer.request =
    List.range' x.loop.exchange.completed (x.answered - x.loop.exchange.completed)
  answers : ∀ answer ∈ x.channel, ∃ request reply,
    x.loop.exchange.requests[answer.request]? = some request ∧ respond request reply ∧
      answer = reply.answer answer.request
  waits : ∀ wait last, x.loop.phase = .collecting wait last →
    wait = (x.loop.plane.settings.blocking || last)
  settled : x.loop.plane.settings.blocking = true →
    (∀ wait last, x.loop.phase ≠ .collecting wait last) → x.loop.exchange.pending = []
  finished : ∀ summary, x.loop.phase = .ended (.finished summary) →
    x.loop.exchange.pending = []

@[simp] theorem Solver.Reply.request_answer (reply : Reply) (request : RequestId) :
    (reply.answer request).request = request := by
  unfold answer
  split <;> rfl

namespace Session

variable {respond : Solver.Request → Solver.Reply → Prop} {x y : Session α}

omit [Quantity α] in
theorem Sound.next (h : x.Sound respond) {answer : Solver.Answer} {rest : List Solver.Answer}
    (hchannel : x.channel = answer :: rest) :
    answer.request = x.loop.exchange.completed ∧ x.loop.exchange.completed < x.answered ∧
      rest.map Solver.Answer.request =
        List.range' (x.loop.exchange.completed + 1)
          (x.answered - (x.loop.exchange.completed + 1)) := by
  have hids := h.channel_eq
  rw [hchannel, List.map_cons] at hids
  have hpos : x.answered - x.loop.exchange.completed ≠ 0 := fun hzero => by
    rw [hzero] at hids
    cases hids
  have hmore : x.answered - x.loop.exchange.completed =
      x.answered - (x.loop.exchange.completed + 1) + 1 := by omega
  rw [hmore, List.range'_succ] at hids
  obtain ⟨hfirst, hrest⟩ := List.cons.inj hids
  exact ⟨hfirst, by omega, hrest⟩

omit [Quantity α] in
/-- Whatever the loop takes is awaited. -/
theorem Sound.awaited (h : x.Sound respond) {answer : Solver.Answer}
    (hanswer : answer ∈ x.channel) : answer.request ∈ x.loop.exchange.pending := by
  have hmem := List.mem_map_of_mem (f := Solver.Answer.request) hanswer
  have hle := h.answered_le
  rw [h.channel_eq, List.mem_range'_1] at hmem
  rw [h.inOrder.pending_eq, List.mem_range'_1]
  omega

omit [Quantity α] in
theorem Sound.channel_of_settled (h : x.Sound respond) (hpending : x.loop.exchange.pending = []) :
    x.channel = [] :=
  List.eq_nil_iff_forall_not_mem.mpr fun answer hanswer => by
    have hawaited := h.awaited hanswer
    rw [hpending] at hawaited
    cases hawaited

/-- Whatever the loop takes is accepted. -/
theorem Sound.exchange_receive (h : x.Sound respond) {answer : Solver.Answer}
    {rest : List Solver.Answer} (hchannel : x.channel = answer :: rest) :
    (x.loop.receive answer).exchange = x.loop.exchange.accept x.loop.exchange.completed := by
  obtain ⟨hid, -, -⟩ := h.next hchannel
  simp only [Loop.exchange, Loop.receive, Simulation.exchange_apply, Placement.exchange_complete]
  rw [if_pos (h.awaited (hchannel ▸ List.mem_cons_self)), hid]

omit [Quantity α] in
theorem Sound.answer (h : x.Sound respond) {request : Solver.Request} {reply : Solver.Reply}
    (hasked : x.loop.exchange.requests[x.answered]? = some request)
    (hresponds : respond request reply) :
    Sound respond
      { x with
        answered := x.answered + 1
        channel := x.channel ++ [reply.answer x.answered] } where
  inOrder := h.inOrder
  taken_eq := h.taken_eq
  completed_le := Nat.le_succ_of_le h.completed_le
  answered_le := (Array.getElem?_eq_some_iff.mp hasked).1
  channel_eq := by
    have hle := h.completed_le
    have hmore : x.answered + 1 - x.loop.exchange.completed =
        x.answered - x.loop.exchange.completed + 1 := by omega
    have hlast : x.loop.exchange.completed + (x.answered - x.loop.exchange.completed) =
        x.answered := by omega
    simp [h.channel_eq, hmore, List.range'_concat, hlast]
  answers answer hanswer := by
    rcases List.mem_append.mp hanswer with hbefore | hnow
    · exact h.answers answer hbefore
    · obtain rfl := List.mem_singleton.mp hnow
      simp only [Solver.Reply.request_answer]
      exact ⟨request, reply, hasked, hresponds, rfl⟩
  waits := h.waits
  settled := h.settled
  finished := h.finished

theorem Sound.turn (h : x.Sound respond) (hready : x.loop.phase = .ready) :
    Sound respond { x with loop := x.loop.turn } := by
  obtain ⟨hasks, htaken, hsettings, -, hphase⟩ := x.loop.opens_turn
  constructor
  case inOrder => exact hasks.inOrder h.inOrder
  case taken_eq => rw [htaken, h.taken_eq, hasks.completed_eq]
  case completed_le =>
    rw [hasks.completed_eq]
    exact h.completed_le
  case answered_le => exact h.answered_le.trans hasks.size_le
  case channel_eq =>
    rw [hasks.completed_eq]
    exact h.channel_eq
  case answers =>
    intro answer hanswer
    obtain ⟨request, reply, hrequest, hresponds, heq⟩ := h.answers answer hanswer
    exact ⟨request, reply, hasks.requests_of hrequest, hresponds, heq⟩
  case waits =>
    simp only [hsettings]
    rcases hphase with ⟨fault, hfailed, -⟩ | ⟨hlast, -⟩ | hcollecting
    · simp [hfailed]
    · simp [hlast]
    · simp [hcollecting]
  case settled =>
    intro hblocking hnot
    rcases hphase with ⟨fault, -, hsame⟩ | ⟨hlast, -⟩ | hcollecting
    · -- The event has added nothing to what was there before it.
      rw [hsame h.inOrder.listening]
      exact h.settled (hsettings ▸ hblocking) (by simp [hready])
    · exact absurd hlast (hnot _ _)
    · exact absurd hcollecting (hnot _ _)
  case finished =>
    rcases hphase with ⟨fault, hfailed, -⟩ | ⟨hlast, -⟩ | hcollecting
    · simp [hfailed]
    · simp [hlast]
    · simp [hcollecting]

theorem Sound.take (h : x.Sound respond) {wait last : Bool} {answer : Solver.Answer}
    {rest : List Solver.Answer} (hcollecting : x.loop.phase = .collecting wait last)
    (hchannel : x.channel = answer :: rest) :
    Sound respond { x with loop := x.loop.receive answer, channel := rest } := by
  obtain ⟨hid, hlt, hrest⟩ := h.next hchannel
  have hexchange := h.exchange_receive hchannel
  constructor
  case inOrder =>
    rw [hexchange]
    exact h.inOrder.accept (hlt.trans_le h.answered_le)
  case taken_eq =>
    rw [hexchange]
    simp only [Loop.receive, Exchange.accept, List.range_succ, h.taken_eq, hid]
  case completed_le =>
    rw [hexchange]
    exact hlt
  case answered_le =>
    rw [hexchange]
    exact h.answered_le
  case channel_eq =>
    rw [hexchange]
    exact hrest
  case answers =>
    rw [hexchange]
    intro answer' hanswer'
    exact h.answers answer' (hchannel ▸ List.mem_cons_of_mem _ hanswer')
  case waits =>
    simp only [Loop.receive, Simulation.settings_apply]
    exact h.waits
  case settled => exact fun _ hnot => absurd hcollecting (hnot _ _)
  case finished => simp [Loop.receive, hcollecting]

theorem Sound.leave (h : x.Sound respond) {wait last : Bool}
    (hcollecting : x.loop.phase = .collecting wait last)
    (hdone : wait = true → x.loop.exchange.pending = []) :
    Sound respond { x with loop := x.loop.leave last } where
  inOrder := h.inOrder
  taken_eq := h.taken_eq
  completed_le := h.completed_le
  answered_le := h.answered_le
  channel_eq := h.channel_eq
  answers := h.answers
  waits wait' last' hphase := by
    cases last <;> cases hphase
  settled hblocking _ := by
    have hwaits : x.loop.plane.settings.blocking = true := hblocking
    exact hdone (by rw [h.waits wait last hcollecting, hwaits, Bool.true_or])
  finished summary hphase := by
    cases last with
    | false => cases hphase
    | true =>
        exact hdone (by rw [h.waits wait true hcollecting, Bool.or_true])

theorem Sound.step (h : x.Sound respond) (hstep : Step respond x y) : y.Sound respond := by
  cases hstep with
  | answer asked responds => exact h.answer asked responds
  | turn ready => exact h.turn ready
  | take collecting there => exact h.take collecting there
  | leave collecting nothing done => exact h.leave collecting done

theorem Sound.steps (h : x.Sound respond) (hsteps : Relation.ReflTransGen (Step respond) x y) :
    y.Sound respond := by
  induction hsteps with
  | refl => exact h
  | tail _ hstep ih => exact ih.step hstep

/-- Unless the run is over one of the parties can go on. -/
theorem Sound.progress (h : x.Sound respond) (hresponds : ∀ request, ∃ reply, respond request reply)
    (hrunning : ∀ result, x.loop.phase ≠ .ended result) : ∃ y, Step respond x y := by
  cases hphase : x.loop.phase with
  | ready => exact ⟨_, .turn hphase⟩
  | ended result => exact absurd hphase (hrunning result)
  | collecting wait last =>
      cases hchannel : x.channel with
      | cons answer rest => exact ⟨_, .take hphase hchannel⟩
      | nil =>
          by_cases hpending : x.loop.exchange.pending = []
          · exact ⟨_, .leave hphase hchannel fun _ => hpending⟩
          · -- All answers so far were accepted, and one more is awaited.
            have hids := h.channel_eq
            rw [hchannel, List.map_nil, eq_comm, List.range'_eq_nil_iff] at hids
            have hle := h.completed_le
            have hsize := h.inOrder.completed_le
            have hdue : x.answered < x.loop.exchange.requests.size := by
              have hne := h.inOrder.pending_eq_nil_iff.not.mp hpending
              omega
            obtain ⟨reply, hreply⟩ := hresponds x.loop.exchange.requests[x.answered]
            exact ⟨_, .answer (Array.getElem?_eq_getElem hdue) hreply⟩

end Session

/-- Whatever either party does, it comes down to operations of placement. -/
theorem Session.Step.runsTo {respond : Solver.Request → Solver.Reply → Prop} {x y : Session α}
    (h : Session.Step respond x y) :
    x.loop.plane.placement.RunsTo y.loop.plane.placement := by
  cases h with
  | answer | leave => exact .refl _
  | turn ready =>
      rcases x.loop.plane_turn with ⟨heq, -⟩ | ⟨next, agenda, processed, heq, -⟩
      · rw [heq]
        exact .refl _
      · rw [heq]
        exact (Simulation.handles_dispatch { x.loop.plane with agenda } next.event).runsTo
  | take collecting there => exact Simulation.runsTo_apply _ _

/-- What the monitor was told stays. -/
theorem Session.Step.monitor_eq {respond : Solver.Request → Solver.Reply → Prop} {x y : Session α}
    (h : Session.Step respond x y) :
    y.loop.plane.monitor.settings = x.loop.plane.monitor.settings := by
  cases h with
  | answer | leave => rfl
  | turn ready =>
      rcases x.loop.plane_turn with ⟨heq, -⟩ | ⟨next, agenda, processed, heq, -⟩
      · rw [heq]
      · rw [heq]
        exact (Simulation.handled_dispatch { x.loop.plane with agenda } next.event).monitor_eq
  | take collecting there => exact congrArg Monitor.settings (Simulation.monitor_apply _ _)

theorem Session.Step.settings_eq {respond : Solver.Request → Solver.Reply → Prop} {x y : Session α}
    (h : Session.Step respond x y) : y.loop.plane.settings = x.loop.plane.settings := by
  cases h with
  | answer asked responds => rfl
  | turn ready => exact x.loop.opens_turn.settings_eq
  | take collecting there => exact Simulation.settings_apply _ _
  | leave collecting nothing done => rfl

namespace Launch

variable {l : Launch α} {respond : Solver.Request → Solver.Reply → Prop} {x : Session α}

@[simp] theorem exchange_opening (l : Launch α) :
    l.opening.loop.exchange = ⟨l.deployment.strategy, #[], [], 0, 0⟩ := by
  simp only [opening, Loop.exchange, placement_start]
  rfl

theorem sound_opening (hstrategy : l.deployment.strategy = .optimizer true) :
    l.opening.Sound respond where
  inOrder := by
    rw [exchange_opening]
    exact ⟨hstrategy, rfl, le_rfl, rfl⟩
  taken_eq := by
    rw [exchange_opening]
    rfl
  completed_le := by
    rw [exchange_opening]
    exact Nat.zero_le _
  answered_le := Nat.zero_le _
  channel_eq := by
    rw [exchange_opening]
    rfl
  answers answer hanswer := absurd hanswer List.not_mem_nil
  waits wait last hphase := by cases hphase
  settled _ _ := by rw [exchange_opening]
  finished summary hphase := by cases hphase

theorem CanReach.sound (h : l.CanReach respond x)
    (hstrategy : l.deployment.strategy = .optimizer true) : x.Sound respond :=
  (sound_opening hstrategy).steps h

theorem CanReach.settings_eq (h : l.CanReach respond x) : x.loop.plane.settings = l.settings := by
  induction h with
  | refl => exact l.settings_start
  | tail _ hstep ih => exact hstep.settings_eq.trans ih

theorem CanReach.monitor_eq (h : l.CanReach respond x) :
    x.loop.plane.monitor.settings = l.monitor.settings := by
  induction h with
  | refl => exact congrArg Monitor.settings l.monitor_start
  | tail _ hstep ih => exact hstep.monitor_eq.trans ih

/-- The placement in a session is one that operations lead to. -/
theorem CanReach.runsTo (h : l.CanReach respond x) :
    l.deployment.start.RunsTo x.loop.plane.placement := by
  induction h with
  | refl =>
      show l.deployment.start.RunsTo l.start.placement
      rw [l.placement_start]
      exact .refl _
  | tail _ hstep ih => exact ih.trans hstep.runsTo

end Launch

end StreamPlacement
