import StreamPlacement.Proofs.Arithmetic.Double
import StreamPlacement.Proofs.Simulation.Ending
import StreamPlacement.Proofs.Simulation.Origin
import StreamPlacement.Proofs.Simulation.Rescheduling
import StreamPlacement.Proofs.Simulation.Switching

/-!
Activations do nothing.

A greedy control plane is run with all its events, and without the activations among them. What
comes up in both runs is handled alike, and an activation finds all servers on. So one run has turns
that the other has not, and that is all: where one comes to an end so does the other, and where one
turns forever so does the other.
-/

namespace StreamPlacement

namespace Agenda

/-- What comes before a time in seconds comes before no earlier millisecond. -/
theorem lt_seconds_of_le {time time' : Nat} (hle : time ≤ time') (hword : time' ≤ wordMax)
    {limit : Float} (hlt : limit < seconds time) : limit < seconds time' :=
  Double.lt_thousandths hle (hword.trans_lt (by decide)) hlt

end Agenda

/-! ### Two runs -/

namespace Simulation

variable {d : Deployment Float} {s s' t : Simulation Float}

/-- There is no solver, and between events all servers are on. -/
structure Steady (d : Deployment Float) (s : Simulation Float) : Prop where
  ordered : s.agenda.Ordered
  worker : s.worker = none
  kept : s.placement.Coherent d ∧ s.placement.servers.AllOn

/-- One control plane is the other without the activations that are to come, and has counted no more
events. -/
structure Spared (t s : Simulation Float) : Prop where
  same : t = s.rescheduled t.agenda t.processed
  agenda : t.agenda.Without s.agenda
  processed_le : t.processed ≤ s.processed

theorem activate_eq (h : s.placement.servers.AllOn) : s.activate = s := by
  unfold activate Placement.activate
  rw [h.activate_eq]
  rfl

theorem Steady.step (h : Steady d s) (hstep : s.step? = some (s', .ok ())) : Steady d s' := by
  obtain ⟨next, agenda, hturned⟩ := turned_of_step? hstep
  refine ⟨hturned.ordered h.ordered, ?_, (kept_allOn d).step? h.kept hstep⟩
  obtain ⟨next, agenda, hpop, hintime, -⟩ := step?_eq_some hstep
  rw [step?_of_no_worker h.worker hpop hintime] at hstep
  have heq : (counted ({ s with agenda }.dispatch next.event)).1 = s' :=
    congrArg Prod.fst (Option.some.inj hstep)
  rw [← heq, worker_counted]
  exact (handled_dispatch { s with agenda } next.event).worker_eq.trans h.worker

/-- What both have to come is handled by both alike. -/
theorem Spared.dispatch (h : t.Spared s) {agenda later : Agenda} (hwithout : later.Without agenda)
    (hsorted : agenda.queue.Pairwise fun a b => a.time ≤ b.time)
    (hclock : later.clock = agenda.clock) (event : Event) :
    ∃ t', { t with agenda := later }.dispatch event = (t', ({ s with agenda }.dispatch event).2) ∧
      t'.Spared ({ s with agenda }.dispatch event).1 := by
  have hsame : ({ t with agenda := later } : Simulation Float) =
      ({ s with agenda } : Simulation Float).rescheduled later t.processed := by
    rw [h.same]
    rfl
  have hagenda := (handled_dispatch { s with agenda } event).agenda_eq
  rw [hsame, dispatch_rescheduled hclock]
  refine ⟨_, rfl, rfl, ?_, ?_⟩
  · rw [hagenda]
    split
    · have hnow : (later.now : Float) = agenda.now := congrArg Agenda.seconds hclock
      show (later.enter (Agenda.millis (later.now + _)) .tick).Without _
      rw [hnow]
      exact hwithout.enter hsorted hclock _ (by simp)
    · exact hwithout
  · rw [processed_dispatch]
    exact h.processed_le

/-- A turn of the one run is a turn of the other, unless it takes an activation. -/
theorem Spared.step (h : t.Spared s) (hsteady : Steady d s) {outcome : Except Fault Unit}
    (hstep : s.step? = some (s', outcome)) :
    outcome = .ok () ∧ t.Spared s' ∨ ∃ t', t.step? = some (t', outcome) ∧ t'.Spared s' := by
  obtain ⟨next, agenda, hpop, hintime, -⟩ := step?_eq_some hstep
  rw [step?_of_no_worker hsteady.worker hpop hintime] at hstep
  have hstep := Option.some.inj hstep
  by_cases hactivation : next.event = .activation
  · have hidle : { s with agenda }.dispatch .activation = ({ s with agenda }, .ok ()) :=
      congrArg (·, Except.ok ()) (activate_eq hsteady.kept.2)
    rw [hactivation, hidle] at hstep
    obtain ⟨rfl, rfl⟩ := Prod.mk.inj hstep
    exact .inl ⟨rfl, h.same, h.agenda.of_pop_activation hpop hactivation,
      h.processed_le.trans (Nat.le_succ _)⟩
  · obtain ⟨next', later, hpop', hact, hwithout⟩ := h.agenda.pop hpop hactivation
    have htime := Appointment.time_eq_of_act_eq hact
    have hclock : later.clock = agenda.clock := by
      rw [Agenda.clock_of_pop? hpop, Agenda.clock_of_pop? hpop', htime]
    have hworker : t.worker = none := h.same ▸ hsteady.worker
    have hintime' : ¬ t.settings.stopTime < Agenda.seconds next'.time := by
      rw [h.same, htime]
      exact hintime
    obtain ⟨t', hdispatch, hspared⟩ := h.dispatch hwithout (hsteady.ordered.pop hpop).sorted hclock
      next.event
    have hstep' := step?_of_no_worker hworker hpop' hintime'
    rw [Appointment.event_eq_of_act_eq hact, hdispatch] at hstep'
    right
    rcases hhandled : { s with agenda }.dispatch next.event with ⟨handled, fault | ⟨⟩⟩ <;>
      rw [hhandled] at hstep hstep' hspared <;>
      obtain ⟨rfl, rfl⟩ := Prod.mk.inj hstep
    · exact ⟨t', hstep', hspared⟩
    · refine ⟨_, hstep', ?_, hspared.agenda, Nat.succ_le_succ hspared.processed_le⟩
      exact congrArg (fun t : Simulation Float => { t with processed := t.processed + 1 })
        hspared.same

/-- Where the one run is over, so is the other. -/
theorem Spared.step?_eq_none (h : t.Spared s) (hsteady : Steady d s) (hstep : s.step? = none) :
    t.step? = none := by
  unfold step?
  split
  · rfl
  · next next' later hpop' =>
      refine if_pos ?_
      cases hpop : s.agenda.pop? with
      | none =>
          rw [h.agenda.pop?_eq_none hpop] at hpop'
          cases hpop'
      | some popped =>
          obtain ⟨next, agenda⟩ := popped
          have hlate : s.settings.stopTime < Agenda.seconds next.time := by
            by_contra hintime
            rw [step?_of_no_worker hsteady.worker hpop hintime] at hstep
            cases hstep
          obtain ⟨queue, hqueue, -⟩ := Agenda.pop?_eq_some_iff.mp hpop'
          obtain ⟨same, hsame, hact⟩ := h.agenda.mem (hqueue ▸ List.mem_cons_self)
          rw [h.same, ← Appointment.time_eq_of_act_eq hact]
          exact Agenda.lt_seconds_of_le (hsteady.ordered.le_of_pop? hpop hsame)
            (hsteady.ordered.within same hsame) hlate

end Simulation

/-- Two results are the same, but for the number of events and the clock. -/
inductive RunResult.Alike {α : Type} : RunResult α → RunResult α → Prop
  | finished (summary : Summary α) (eventsProcessed : Nat) (simulatedTime : α)
    (le : eventsProcessed ≤ summary.eventsProcessed) :
    Alike (.finished { summary with eventsProcessed, simulatedTime }) (.finished summary)
  | failed (fault : Fault) : Alike (.failed fault) (.failed fault)
  | endless : Alike .endless .endless

theorem RunResult.Alike.endless_iff {α : Type} {result result' : RunResult α}
    (h : result.Alike result') : result = .endless ↔ result' = .endless := by
  cases h <;> simp

namespace Simulation

variable {d : Deployment Float} {s s' t : Simulation Float} {turns : Nat}

theorem runFor_over (hstep : s.step? = none) (turns : Nat) :
    s.runFor (turns + 1) = (s.collect true, .finished (s.collect true).summary) := by
  rw [Simulation.runFor, hstep]

theorem runFor_failed {fault : Fault} (hstep : s.step? = some (s', .error fault)) (turns : Nat) :
    s.runFor (turns + 1) = (s', .failed fault) := by
  rw [Simulation.runFor, hstep]

theorem runFor_turned (hstep : s.step? = some (s', .ok ())) (turns : Nat) :
    s.runFor (turns + 1) = s'.runFor turns := by
  rw [Simulation.runFor, hstep]

/-- More turns change nothing once a run has come to its end. -/
theorem runFor_add (hends : (s.runFor turns).2 ≠ .endless) (more : Nat) :
    s.runFor (turns + more) = s.runFor turns := by
  induction turns generalizing s with
  | zero => exact absurd rfl hends
  | succ turns ih =>
      rw [Nat.succ_add]
      rcases hstep : s.step? with _ | ⟨s', fault | ⟨⟩⟩
      · rw [runFor_over hstep, runFor_over hstep]
      · rw [runFor_failed hstep, runFor_failed hstep]
      · rw [runFor_turned hstep] at hends
        rw [runFor_turned hstep, runFor_turned hstep, ih hends]

theorem run_eq_of_ends (hordered : s.agenda.Ordered) (hends : (s.runFor turns).2 ≠ .endless) :
    s.run = s.runFor turns := by
  have hrun : s.run.2 ≠ .endless := fun hend => hends ((forever_iff hordered).mpr hend turns)
  unfold run at hrun ⊢
  rw [← runFor_add hrun turns, Nat.add_comm, runFor_add hends]

/-- Whatever the one run comes to, the other comes to. -/
theorem Spared.runFor (h : t.Spared s) (hsteady : Steady d s)
    (hends : (s.runFor turns).2 ≠ .endless) :
    ∃ turns', (t.runFor turns').2.Alike (s.runFor turns).2 ∧
      (t.runFor turns').1.Spared (s.runFor turns).1 := by
  induction turns generalizing s t with
  | zero => exact absurd rfl hends
  | succ turns ih =>
      rcases hstep : s.step? with _ | ⟨s', fault | ⟨⟩⟩
      · have hworker : t.worker = none := h.same ▸ hsteady.worker
        refine ⟨1, ?_⟩
        rw [runFor_over hstep, runFor_over (h.step?_eq_none hsteady hstep),
          collect_of_no_worker hsteady.worker, collect_of_no_worker hworker]
        refine ⟨?_, h⟩
        rw [h.same]
        exact .finished s.summary t.processed t.agenda.now h.processed_le
      · rcases h.step hsteady hstep with ⟨hok, -⟩ | ⟨t', hstep', hspared⟩
        · cases hok
        · refine ⟨1, ?_⟩
          rw [runFor_failed hstep, runFor_failed hstep']
          exact ⟨.failed fault, hspared⟩
      · rw [runFor_turned hstep] at hends ⊢
        rcases h.step hsteady hstep with ⟨-, hspared⟩ | ⟨t', hstep', hspared⟩
        · exact ih hspared (hsteady.step hstep) hends
        · obtain ⟨turns', hturns⟩ := ih hspared (hsteady.step hstep) hends
          refine ⟨turns' + 1, ?_⟩
          rw [runFor_turned hstep']
          exact hturns

theorem Spared.reaches (h : t.Spared s) (hsteady : Steady d s) (hreaches : s.Reaches s') :
    ∃ t', t.Reaches t' ∧ t'.Spared s' ∧ Steady d s' := by
  induction hreaches with
  | refl => exact ⟨t, .refl, h, hsteady⟩
  | tail _ hstep ih =>
      obtain ⟨t', hreaches', hspared, hsteady'⟩ := ih
      rcases hspared.step hsteady' hstep with ⟨-, hspared'⟩ | ⟨t'', hstep', hspared'⟩
      · exact ⟨t', hreaches', hspared', hsteady'.step hstep⟩
      · exact ⟨t'', hreaches'.tail hstep', hspared', hsteady'.step hstep⟩

/-- Where the one run is stuck, so is the other: what is left of the millisecond are ticks. -/
theorem Spared.stuck (h : t.Spared s) (hstuck : s.Stuck) : t.Stuck := by
  obtain ⟨next, agenda, hpop, htick, hintime, hstalls, hticks⟩ := hstuck
  obtain ⟨next', later, hpop', hact, hwithout⟩ := h.agenda.pop hpop (by simp [htick])
  have htime := Appointment.time_eq_of_act_eq hact
  refine ⟨next', later, hpop', (Appointment.event_eq_of_act_eq hact).trans htick, ?_, ?_, ?_⟩
  · rw [h.same, htime]
    exact hintime
  · rw [h.same, htime]
    exact hstalls
  · intro a ha hle
    obtain ⟨same, hsame, hact'⟩ := hwithout.mem ha
    rw [← Appointment.event_eq_of_act_eq hact']
    refine hticks same hsame ?_
    rwa [Appointment.time_eq_of_act_eq hact', ← htime]

/-- Two runs from alike states come to alike results, and to alike states if they come to any. -/
theorem Spared.run (h : t.Spared s) (hsteady : Steady d s) (hordered : t.agenda.Ordered) :
    t.run.2.Alike s.run.2 ∧ (s.run.2 ≠ .endless → t.run.1.Spared s.run.1) := by
  by_cases hends : s.run.2 = .endless
  · obtain ⟨s', hreaches, hstuck⟩ := (run_endless_iff hsteady.ordered).mp hends
    obtain ⟨t', hreaches', hspared, -⟩ := h.reaches hsteady hreaches
    have hends' := (run_endless_iff hordered).mpr ⟨t', hreaches', hspared.stuck hstuck⟩
    rw [hends, hends']
    exact ⟨.endless, fun hnot => absurd rfl hnot⟩
  · obtain ⟨turns', halike, hspared⟩ := h.runFor hsteady hends
    have hends' : (t.runFor turns').2 ≠ .endless := fun hend =>
      hends (halike.endless_iff.mp hend)
    rw [run_eq_of_ends hordered hends']
    exact ⟨halike, fun _ => hspared⟩

/-- Activations that are not entered leave the rest of the agenda as it is. -/
theorem Spared.scheduleAll (h : t.Spared s) (hordered : s.agenda.Ordered)
    (hclock : t.agenda.clock = s.agenda.clock) (events : List (TimedEvent Float)) :
    (t.scheduleAll (events.filter (·.event ≠ .activation))).Spared (s.scheduleAll events) := by
  induction events generalizing s t with
  | nil => exact h
  | cons timed rest ih =>
      have hordered' : (s.schedule timed).agenda.Ordered := hordered.enter (millis_le _) _
      by_cases hevent : timed.event = .activation
      · rw [List.filter_cons_of_neg (by simpa using hevent)]
        refine ih ⟨h.same, ?_, h.processed_le⟩ hordered' hclock
        show t.agenda.Without (s.agenda.enter _ timed.event)
        rw [hevent]
        exact h.agenda.enter_activation _
      · rw [List.filter_cons_of_pos (by simpa using hevent)]
        refine ih ⟨?_, h.agenda.enter hordered.sorted hclock _ hevent, h.processed_le⟩ hordered'
          hclock
        exact congrArg (fun t : Simulation Float => t.schedule timed) h.same

end Simulation

/-! ### Control planes that are built -/

namespace Launch

/-- The same control plane with another workload. -/
def playing (l : Launch Float) (events : List (TimedEvent Float)) : Launch Float :=
  { l with events }

theorem start_playing {l : Launch Float} (h : l.events = []) (events : List (TimedEvent Float)) :
    (l.playing events).start = l.start.scheduleAll events := by
  unfold start
  rw [h]
  rfl

theorem spared_playing (l : Launch Float) (events : List (TimedEvent Float)) :
    (l.playing (events.filter (·.event ≠ .activation))).start.Spared (l.playing events).start := by
  let s := Simulation.start l.deployment.start l.monitor l.worker l.settings
  have hsame : s.Spared s := ⟨rfl, rfl, Nat.le_refl _⟩
  exact hsame.scheduleAll (Agenda.ordered_empty.enter (Simulation.millis_le _) _) rfl events

theorem steady_playing (l : Launch Float) (hgreedy : l.deployment.strategy = .greedy)
    (hon : l.deployment.start.servers.AllOn) (events : List (TimedEvent Float)) :
    (l.playing events).start.Steady l.deployment where
  ordered := (l.playing events).ordered_start
  worker := (l.playing events).worker_start.trans (l.worker_of_greedy hgreedy)
  kept := by
    rw [(l.playing events).placement_start]
    exact ⟨Placement.coherent_start l.deployment, hon⟩

end Launch

namespace Settings

/-- No event leaves a server off: at every moment of a control plane that was built all servers are
on. So the activations in a workload do nothing. With the greedy strategy a run without them comes
to the same end, or to none either, and if it comes to an end it leaves the same behind, but for the
agenda with its clock and the number of events. -/
theorem nothing_to_activate {settings : Settings} {files : FileReader (StateM MemoryFiles)}
    {memory : MemoryFiles} {sim : Simulation Float}
    (hbuilt : (memory.outcome (settings.build files)).1 = .ok sim) :
    (∀ {s}, sim.Moment s → s.placement.servers.AllOn) ∧
    (settings.resolution = .greedy →
      ∃ l : Launch Float, l.start = sim ∧
        (∃ memory' : MemoryFiles,
          (memory'.outcome (settings.workload files l.deployment.book)).1 = .ok l.events) ∧
        ∀ trace : List (TimedEvent Float),
          (l.playing (trace.filter (·.event ≠ .activation))).start.run.2.Alike
            (l.playing trace).start.run.2 ∧
          ((l.playing trace).start.run.2 ≠ .endless → ∃ agenda processed,
            (l.playing (trace.filter (·.event ≠ .activation))).start.run.1 =
              (l.playing trace).start.run.1.rescheduled agenda processed)) := by
  obtain ⟨-, hpool⟩ := serverPool_of_build hbuilt
  obtain ⟨-, hon, -⟩ := serverPool_cases hpool
  obtain ⟨l, rfl, -, -, -, hstrategy, hworkload⟩ := launch_of_build_playing hbuilt
  rw [l.placement_start] at hon
  constructor
  · intro s hmoment
    have hcoherent : l.start.placement.Coherent l.deployment := by
      rw [l.placement_start]
      exact Placement.coherent_start l.deployment
    exact (Simulation.Moment.allOn hcoherent (l.placement_start ▸ hon) hmoment).2
  · intro hgreedy
    refine ⟨l, rfl, hworkload, fun trace => ?_⟩
    obtain ⟨halike, hends⟩ := (l.spared_playing trace).run
      (l.steady_playing (hstrategy.mpr hgreedy) hon trace) (Launch.ordered_start _)
    exact ⟨halike, fun hend => ⟨_, _, (hends hend).same⟩⟩

/-- The line on which the first link carries one stream, with the greedy strategy. -/
def crowded.greedy : Configuration :=
  { crowded.configuration [] with resolution := { strategy := "greedy" } }

/-- Two viewers of the same content, and an activation behind them. -/
def crowded.prompted : List (TimedEvent Float) :=
  [⟨0, .arrival ⟨0⟩ ⟨7⟩ none⟩, ⟨0, .arrival ⟨1⟩ ⟨7⟩ none⟩, ⟨0.5, .activation⟩]

/-- For the second viewer a server is switched off, and on again before the activation comes. That
is one of four events; without it there are three, and the same groups and servers. -/
theorem nothing_to_activate_when_crowded :
    ∃ settings sim,
      (crowded.files.outcome (Settings.build settings MemoryFiles.current)).1 = .ok sim ∧
      settings.resolution = .greedy ∧
      (sim.scheduleAll crowded.prompted).run.1.processed = 4 ∧
      (sim.scheduleAll crowded.prompted).run.1.placement.tally.serversActivated = 1 ∧
      (sim.scheduleAll crowded.prompted).run.1.placement.servers.AllOn ∧
      ∃ l : Launch Float, l.start = sim ∧
        (l.playing crowded.prompted).start = sim.scheduleAll crowded.prompted ∧
        (l.playing (crowded.prompted.filter (·.event ≠ .activation))).start.run.1.placement =
          (sim.scheduleAll crowded.prompted).run.1.placement := by
  have hplain : (ofConfiguration "" crowded.greedy).toOption.all (fun settings =>
      settings.resolution = .greedy ∧ settings.traceFile = none ∧
        settings.scenario.isNone) = true := by
    decide +kernel
  have hrun : (launched crowded.files crowded.greedy).toOption.any (fun sim =>
      let s := (sim.scheduleAll crowded.prompted).runFor 5
      decide (s.1.processed = 4 ∧ s.1.placement.tally.serversActivated = 1) &&
        match s.2 with
        | .finished _ => true
        | _ => false) = true := by
    decide +kernel
  cases hsim : launched crowded.files crowded.greedy with
  | error fault =>
      rw [hsim] at hrun
      cases hrun
  | ok sim =>
      obtain ⟨settings, haccepted, hbuilt⟩ := built_of_launched hsim
      rw [haccepted] at hplain
      rw [hsim] at hrun
      obtain ⟨hgreedy, htrace, hscenario⟩ := of_decide_eq_true hplain
      obtain ⟨hcounts, hover⟩ := Bool.and_eq_true_iff.mp hrun
      obtain ⟨hprocessed, hactivated⟩ := of_decide_eq_true hcounts
      obtain ⟨hon, hspared⟩ := nothing_to_activate hbuilt
      obtain ⟨l, rfl, ⟨memory, hworkload⟩, hruns⟩ := hspared hgreedy
      have hevents : l.events = [] := by
        rw [workload, htrace, Option.isNone_iff_eq_none.mp hscenario] at hworkload
        exact (Except.ok.inj hworkload).symm
      have hends : ((l.start.scheduleAll crowded.prompted).runFor 5).2 ≠ .endless := by
        intro hend
        rw [hend] at hover
        cases hover
      have hordered := Simulation.ordered_scheduleAll l.ordered_start crowded.prompted
      have hfive := Simulation.run_eq_of_ends hordered hends
      have hstart := l.start_playing hevents crowded.prompted
      obtain ⟨agenda, processed, hsame⟩ := (hruns crowded.prompted).2 (by rwa [hstart, hfive])
      refine ⟨settings, _, hbuilt, hgreedy, ?_, ?_, ?_, l, rfl, hstart, ?_⟩
      · rw [hfive]
        exact hprocessed
      · rw [hfive]
        exact hactivated
      · rw [hfive]
        exact hon (.turned crowded.prompted 5)
      · rw [hsame, hstart, Simulation.placement_rescheduled]

end Settings

end StreamPlacement
