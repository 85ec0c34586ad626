import Mathlib.Logic.Function.Iterate
import StreamPlacement.Proofs.Monitor.Interval
import StreamPlacement.Proofs.Placement.Operations
import StreamPlacement.Simulation.Engine

/-!
What a turn of the event loop does.

To the placement it does nothing that could not be asked of it from outside: an event and the
answers that are applied behind it come down to a few operations. The agenda is changed by ticks
alone, which enter the next tick, and the settings are not changed at all.
-/

namespace StreamPlacement

variable {α : Type} [Quantity α]

/-! ### Placement -/

/-- Some operations lead from one state to the other. -/
def Placement.RunsTo (p q : Placement α) : Prop := ∃ ops, q = p.run ops

/-- What an event asks of placement by itself: it never brings an answer. -/
def Operation.OfEvent : Operation → Prop
  | .arrive .. | .react _ | .activate => True
  | _ => False

/-- Operations of events lead from one state to the other. -/
def Placement.Handles (p q : Placement α) : Prop :=
  ∃ ops, (∀ op ∈ ops, Operation.OfEvent op) ∧ q = p.run ops

namespace Placement

variable {p q r : Placement α}

theorem RunsTo.refl (p : Placement α) : p.RunsTo p := ⟨[], rfl⟩

theorem RunsTo.single (p : Placement α) (op : Operation) : p.RunsTo (p.perform op) := ⟨[op], rfl⟩

theorem RunsTo.trans (h : p.RunsTo q) (h' : q.RunsTo r) : p.RunsTo r := by
  obtain ⟨ops, rfl⟩ := h
  obtain ⟨more, rfl⟩ := h'
  exact ⟨ops ++ more, List.foldl_append.symm⟩

theorem Handles.refl (p : Placement α) : p.Handles p := ⟨[], by simp, rfl⟩

theorem Handles.single (p : Placement α) (op : Operation) (h : op.OfEvent) :
    p.Handles (p.perform op) := ⟨[op], by simpa using h, rfl⟩

theorem Handles.trans (h : p.Handles q) (h' : q.Handles r) : p.Handles r := by
  obtain ⟨ops, hops, rfl⟩ := h
  obtain ⟨more, hmore, rfl⟩ := h'
  exact ⟨ops ++ more, fun op hop => (List.mem_append.mp hop).elim (hops op) (hmore op),
    List.foldl_append.symm⟩

theorem Handles.runsTo (h : p.Handles q) : p.RunsTo q := by
  obtain ⟨ops, -, hrun⟩ := h
  exact ⟨ops, hrun⟩

/-- Congested links are reacted to one after the other. -/
theorem handles_handle (signals : List (Signal α)) (p : Placement α) :
    p.Handles (Monitor.handle signals p).2 := by
  induction signals generalizing p with
  | nil => exact .refl p
  | cons signal rest ih =>
      exact (Handles.single p (.react signal.edge) trivial).trans (ih _)

end Placement

namespace Simulation

variable {s s' : Simulation α}

theorem handles_activate (s : Simulation α) : s.placement.Handles s.activate.placement :=
  .single _ .activate trivial

theorem handles_arrive (s : Simulation α) (user : UserId) (content : ContentId)
    (server : Option NodeId) :
    s.placement.Handles (s.arrive user content server).1.placement := by
  unfold arrive
  split
  · exact .refl _
  · next attachment hclient =>
      have harrive := Placement.Handles.single s.placement
        (.arrive attachment.accessPoint (server.getD s.settings.origin) content user) trivial
      simp only [Placement.perform] at harrive
      dsimp only
      split
      · exact .refl _
      · next heq =>
          rw [heq] at harrive
          exact harrive
      · next e placement heq =>
          rw [heq] at harrive
          -- Where room is made there are two more operations in the same event.
          split
          · have hreact := harrive.trans (.single placement (.react e) trivial)
            simp only [Placement.perform] at hreact
            split
            · next hfailed =>
                rw [hfailed] at hreact
                exact hreact
            · next hdone =>
                rw [hdone] at hreact
                exact hreact.trans (handles_activate _)
          · exact harrive

/-! ### The end of an interval -/

/-- The counts of the interval are complete. -/
def measured (s : Simulation α) : Simulation α :=
  if s.settings.traffic = .estimated then s.feedEstimate else s

/-- All links over their limit have been reacted to. -/
def reacted (s : Simulation α) : Simulation α :=
  let (reactions, monitor, placement) := s.monitor.tick s.placement
  let s := { s with monitor, placement }
  let relieved := reactions.any fun
    | .relieved _ => true
    | .escalated _ => false
  if relieved then s.activate else s

/-- Whether there is time for another interval. -/
def Continues (s : Simulation α) : Prop :=
  s.agenda.now + s.monitor.settings.interval ≤ s.settings.stopTime

instance (s : Simulation α) : Decidable s.Continues := inferInstanceAs (Decidable (_ ≤ _))

theorem endInterval_eq (s : Simulation α) :
    s.endInterval =
      if s.measured.reacted.Continues then
        { s.measured.reacted with
          agenda := s.measured.reacted.agenda.enterIn
            s.measured.reacted.monitor.settings.interval .tick }
      else s.measured.reacted := rfl

theorem handles_reacted (s : Simulation α) : s.placement.Handles s.reacted.placement := by
  have hhandle : s.placement.Handles (s.monitor.tick s.placement).2.2 :=
    Placement.handles_handle _ _
  unfold reacted
  dsimp only
  split
  · exact hhandle.trans (handles_activate _)
  · exact hhandle

theorem handles_endInterval (s : Simulation α) : s.placement.Handles s.endInterval.placement := by
  have hmeasured : s.measured.placement = s.placement := by
    unfold measured
    split <;> rfl
  have hreacted := handles_reacted s.measured
  rw [hmeasured] at hreacted
  rw [endInterval_eq]
  split <;> exact hreacted

theorem handles_dispatch (s : Simulation α) (event : Event) :
    s.placement.Handles (s.dispatch event).1.placement := by
  cases event with
  | arrival user content server => exact handles_arrive s user content server
  | traffic e bytes => exact .refl _
  | tick => exact handles_endInterval s
  | activation => exact handles_activate s

/-! ### Answers of the solver -/

theorem runsTo_apply (s : Simulation α) (answer : Solver.Answer) :
    s.placement.RunsTo (s.apply answer).placement := by
  have hcomplete := Placement.RunsTo.single s.placement (.complete answer)
  unfold apply
  dsimp only
  split
  · exact hcomplete
  · exact hcomplete.trans (handles_activate _).runsTo

omit [Quantity α] in
/-- Taking an answer changes nothing but the worker. -/
theorem nextAnswer?_eq_some {wait : Bool} {answer : Solver.Answer}
    (h : s.nextAnswer? wait = some (answer, s')) :
    ∃ worker next, s.worker = some worker ∧
      (if wait && !s.placement.pending.isEmpty then worker.wait s.placement.requests
        else worker.poll) = some (answer, next) ∧
      s' = { s with worker := some next } := by
  obtain ⟨worker, hworker, hnext⟩ := Option.bind_eq_some_iff.mp h
  obtain ⟨⟨answer', next⟩, htaken, heq⟩ := Option.map_eq_some_iff.mp hnext
  obtain ⟨rfl, rfl⟩ := Prod.mk.inj heq
  exact ⟨worker, next, hworker, htaken, rfl⟩

theorem runsTo_collectUpTo (wait : Bool) (count : Nat) (s : Simulation α) :
    s.placement.RunsTo (collectUpTo wait count s).placement := by
  induction count generalizing s with
  | zero => exact .refl _
  | succ count ih =>
      unfold collectUpTo
      split
      · exact .refl _
      · next answer s' heq =>
          obtain ⟨worker, next, -, -, rfl⟩ := nextAnswer?_eq_some heq
          exact (runsTo_apply { s with worker := some next } answer).trans (ih _)

/-! ### Turns -/

/-- A turn takes the soonest event, and the clock goes to its time. -/
theorem step?_eq_some {outcome : Except Fault Unit} (h : s.step? = some (s', outcome)) :
    ∃ next agenda, s.agenda.pop? = some (next, agenda) ∧
      ¬ s.settings.stopTime < Agenda.seconds next.time ∧
      ((∃ fault, outcome = .error fault ∧
          { s with agenda }.dispatch next.event = (s', .error fault)) ∨
        ∃ handled, outcome = .ok () ∧
          { s with agenda }.dispatch next.event = (handled, .ok ()) ∧
          s' = { handled with processed := handled.processed + 1 }.collect
            handled.settings.blocking) := by
  unfold step? at h
  split at h
  · cases h
  · next next agenda hpop =>
      split at h
      · cases h
      · next hintime =>
          refine ⟨next, agenda, hpop, hintime, ?_⟩
          split at h
          · next fault heq =>
              cases h
              exact .inl ⟨fault, rfl, heq⟩
          · next handled heq =>
              cases h
              exact .inr ⟨handled, rfl, heq, rfl⟩

theorem runsTo_step? {outcome : Except Fault Unit} (h : s.step? = some (s', outcome)) :
    s.placement.RunsTo s'.placement := by
  obtain ⟨next, agenda, -, -, ⟨fault, -, heq⟩ | ⟨handled, -, heq, rfl⟩⟩ := step?_eq_some h
  all_goals
    have hdispatch := (handles_dispatch { s with agenda } next.event).runsTo
    rw [heq] at hdispatch
  · exact hdispatch
  · exact hdispatch.trans (runsTo_collectUpTo _ _ _)

/-! ### What else a turn changes -/

/-- An arrival changes nothing but the placement. -/
theorem arrive_eq (s : Simulation α) (user : UserId) (content : ContentId)
    (server : Option NodeId) :
    (s.arrive user content server).1 =
      { s with placement := (s.arrive user content server).1.placement } := by
  unfold arrive
  split
  · rfl
  · dsimp only
    split
    · rfl
    · rfl
    · split
      · split <;> rfl
      · rfl

theorem reacted_eq (s : Simulation α) :
    s.reacted = { s with monitor := s.monitor.sample.2, placement := s.reacted.placement } := by
  unfold reacted
  dsimp only
  split <;> rfl

theorem measured_eq (s : Simulation α) :
    ∃ monitor : Monitor α, monitor.settings = s.monitor.settings ∧
      s.measured = { s with monitor } := by
  unfold measured
  split
  · refine ⟨_, ?_, rfl⟩
    refine List.foldlRecOn (motive := fun m : Monitor α => m.settings = s.monitor.settings) _ _ rfl
      fun m hm link _ => ?_
    dsimp only
    split
    · rw [Monitor.settings_recordLink, hm]
    · exact hm
  · exact ⟨s.monitor, rfl, rfl⟩

/-- Counting and reacting change nothing but the monitor and the placement. -/
theorem reacted_measured_eq (s : Simulation α) :
    ∃ (monitor : Monitor α) (placement : Placement α), monitor.settings = s.monitor.settings ∧
      s.measured.reacted = { s with monitor, placement } := by
  obtain ⟨monitor, hmonitor, hmeasured⟩ := measured_eq s
  have hreacted := reacted_eq s.measured
  rw [hmeasured] at hreacted
  exact ⟨monitor.sample.2, _, hmonitor, (congrArg reacted hmeasured).trans hreacted⟩

theorem continues_iff {monitor : Monitor α} (placement : Placement α)
    (hmonitor : monitor.settings = s.monitor.settings) :
    ({ s with monitor, placement } : Simulation α).Continues ↔ s.Continues := by
  rw [Continues, Continues, hmonitor]

theorem apply_eq (s : Simulation α) (answer : Solver.Answer) :
    ∃ placement severity, s.apply answer = { s with placement, severity } := by
  unfold apply
  dsimp only
  split <;> exact ⟨_, _, rfl⟩

/-- Answers change neither the agenda nor the monitor, nor what the loop was told. -/
theorem collectUpTo_eq (wait : Bool) (count : Nat) (s : Simulation α) :
    ∃ placement worker severity,
      collectUpTo wait count s = { s with placement, worker, severity } := by
  induction count generalizing s with
  | zero => exact ⟨s.placement, s.worker, s.severity, rfl⟩
  | succ count ih =>
      unfold collectUpTo
      split
      · exact ⟨s.placement, s.worker, s.severity, rfl⟩
      · next answer s' heq =>
          obtain ⟨worker, next, -, -, rfl⟩ := nextAnswer?_eq_some heq
          obtain ⟨placement, severity, happly⟩ := apply_eq { s with worker := some next } answer
          rw [happly]
          exact ih _

theorem collect_of_no_worker (h : s.worker = none) (wait : Bool) : s.collect wait = s := by
  have houtstanding : s.outstanding = 0 := by rw [outstanding, h]
  rw [collect, houtstanding, collectUpTo]

/-- An event was handled: a tick has entered the next one if there is time for it, and nothing else
has touched the agenda. -/
structure Handled (event : Event) (s t : Simulation α) : Prop where
  settings_eq : t.settings = s.settings
  monitor_eq : t.monitor.settings = s.monitor.settings
  worker_eq : t.worker = s.worker
  agenda_eq : t.agenda =
    if event = .tick ∧ s.Continues then s.agenda.enterIn s.monitor.settings.interval .tick
    else s.agenda

theorem handled_dispatch (s : Simulation α) (event : Event) :
    Handled event s (s.dispatch event).1 := by
  cases event with
  | arrival user content server =>
      have heq : (s.dispatch (.arrival user content server)).1 = _ :=
        arrive_eq s user content server
      rw [heq]
      exact ⟨rfl, rfl, rfl, (if_neg (by simp)).symm⟩
  | traffic e bytes =>
      exact ⟨rfl, Monitor.settings_recordLink _ _ _ _, rfl, (if_neg (by simp)).symm⟩
  | tick =>
      obtain ⟨monitor, placement, hmonitor, hreacted⟩ := reacted_measured_eq s
      have hcontinues := continues_iff placement hmonitor
      show Handled .tick s s.endInterval
      rw [endInterval_eq, hreacted]
      by_cases hmore : s.Continues
      · rw [if_pos (hcontinues.mpr hmore)]
        refine ⟨rfl, hmonitor, rfl, ?_⟩
        rw [if_pos ⟨rfl, hmore⟩, hmonitor]
      · rw [if_neg (hcontinues.not.mpr hmore)]
        exact ⟨rfl, hmonitor, rfl, (if_neg fun hboth => hmore hboth.2).symm⟩
  | activation => exact ⟨rfl, rfl, rfl, (if_neg (by simp)).symm⟩

/-- The soonest event was handled without fault. -/
structure Turned (s s' : Simulation α) (next : Appointment) (agenda : Agenda) : Prop where
  popped : s.agenda.pop? = some (next, agenda)
  in_time : ¬ s.settings.stopTime < Agenda.seconds next.time
  settings_eq : s'.settings = s.settings
  monitor_eq : s'.monitor.settings = s.monitor.settings
  agenda_eq : s'.agenda =
    if next.event = .tick ∧ ({ s with agenda } : Simulation α).Continues then
      agenda.enterIn s.monitor.settings.interval .tick
    else agenda

theorem turned_of_step? (h : s.step? = some (s', .ok ())) :
    ∃ next agenda, Turned s s' next agenda := by
  obtain ⟨next, agenda, hpop, hintime, ⟨_, hfault, -⟩ | ⟨handled, -, heq, rfl⟩⟩ := step?_eq_some h
  · cases hfault
  · have hhandled := handled_dispatch { s with agenda } next.event
    rw [heq] at hhandled
    obtain ⟨placement, worker, severity, hcollect⟩ := collectUpTo_eq handled.settings.blocking
      ({ handled with processed := handled.processed + 1 } : Simulation α).outstanding
      { handled with processed := handled.processed + 1 }
    refine ⟨next, agenda, hpop, hintime, ?_, ?_, ?_⟩
    · rw [collect, hcollect]
      exact hhandled.settings_eq
    · rw [collect, hcollect]
      exact hhandled.monitor_eq
    · rw [collect, hcollect]
      exact hhandled.agenda_eq

/-- The states at the event boundaries of a run: its start, and what there is after each event that
was handled without fault. -/
abbrev Reaches : Simulation α → Simulation α → Prop :=
  Relation.ReflTransGen fun s s' => s.step? = some (s', .ok ())

theorem Reaches.runsTo (h : s.Reaches s') : s.placement.RunsTo s'.placement := by
  induction h with
  | refl => exact .refl _
  | tail _ hstep ih => exact ih.trans (runsTo_step? hstep)

/-- The state after one turn that was handled without fault, or else the state itself. -/
def turn (s : Simulation α) : Simulation α :=
  match s.step? with
  | some (s, .ok ()) => s
  | _ => s

theorem reaches_turn (s : Simulation α) : s.Reaches s.turn := by
  unfold turn
  split
  · next hstep => exact .single hstep
  · exact .refl

theorem reaches_turns (turns : Nat) (s : Simulation α) : s.Reaches (turn^[turns] s) := by
  induction turns generalizing s with
  | zero => exact .refl
  | succ turns ih => exact (reaches_turn s).trans (ih s.turn)

end Simulation

end StreamPlacement
