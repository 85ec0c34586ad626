import Mathlib.Data.Rat.Floor
import Mathlib.Tactic.Linarith
import StreamPlacement.Proofs.Simulation.Agenda
import StreamPlacement.Proofs.Simulation.Launch

/-!
How a run ends.

A tick is entered again one interval after the clock, but an agenda counts whole milliseconds, and
an interval can get lost in the rounding. Then the tick comes again in the same millisecond, behind
the other events of it; and once only ticks are left there, the run has no end. There is no other way
for a run to have none: in all others the work that is left goes down with every turn.
-/

namespace StreamPlacement

/-! ### Ticks that stall -/

section

variable {α : Type} [Quantity α]

/-- A tick at `clock` is followed by another, and in the same millisecond. -/
def Stalls (interval stopTime : α) (clock : Nat) : Prop :=
  Agenda.seconds clock + interval ≤ stopTime ∧
    Agenda.millis (Agenda.seconds clock + interval) ≤ clock

instance (interval stopTime : α) (clock : Nat) : Decidable (Stalls interval stopTime clock) :=
  inferInstanceAs (Decidable (_ ∧ _))

end

/-- In exact arithmetic a tick stalls if the interval is shorter than half a millisecond, or at the
end of the clock. -/
theorem stalls_iff {interval stopTime : Rat} (h : 0 < interval) (clock : Nat) :
    Stalls interval stopTime clock ↔
      (clock : Rat) / 1000 + interval ≤ stopTime ∧ (interval < 1 / 2000 ∨ wordMax ≤ clock) := by
  have hpos : 0 < (clock : Rat) / 1000 + interval := by positivity
  have hmillis : Agenda.millis ((clock : Rat) / 1000 + interval) =
      min wordMax ⌊((clock : Rat) / 1000 + interval) * 1000 + 1 / 2⌋.toNat := by
    unfold Agenda.millis Quantity.atLeastZero
    rw [if_pos hpos]
    rfl
  have hfloor : ⌊((clock : Rat) / 1000 + interval) * 1000 + 1 / 2⌋.toNat ≤ clock ↔
      interval < 1 / 2000 := by
    rw [Int.toNat_le, ← Int.lt_add_one_iff, Int.floor_lt]
    push_cast
    constructor <;> intro hlt <;> linarith
  show _ ∧ Agenda.millis ((clock : Rat) / 1000 + interval) ≤ clock ↔ _
  rw [hmillis, min_le_iff, hfloor, or_comm]
  rfl

namespace Simulation

variable {s s' : Simulation Float} {next : Appointment} {agenda : Agenda}

/-! ### Times in order -/

theorem millis_le (seconds : Float) : Agenda.millis seconds ≤ wordMax :=
  Binary64.toWord_le (roundDiv · · .up)
    (Binary64.ofFloat (Quantity.atLeastZero seconds * Quantity.ofNat 1000))

/-- A tick enters the next one if there is time for it: in a later millisecond, unless it stalls.
Nothing else is ever entered. -/
theorem Turned.agenda_cases (h : Turned s s' next agenda) :
    ((next.event = .tick ∧
        Agenda.seconds next.time + s.monitor.settings.interval ≤ s.settings.stopTime) ∧
      ∃ time, s'.agenda = agenda.enter time .tick ∧ time ≤ wordMax ∧
        (next.time < time ↔
          ¬ Stalls s.monitor.settings.interval s.settings.stopTime next.time)) ∨
    ¬ (next.event = .tick ∧
        Agenda.seconds next.time + s.monitor.settings.interval ≤ s.settings.stopTime) ∧
      s'.agenda = agenda := by
  have hclock := Agenda.clock_of_pop? h.popped
  have hguard : ({ s with agenda } : Simulation Float).Continues ↔
      Agenda.seconds next.time + s.monitor.settings.interval ≤ s.settings.stopTime := by
    rw [Continues, Agenda.now, hclock]
  have hagenda := h.agenda_eq
  split at hagenda
  · next hboth =>
      rw [hguard] at hboth
      refine .inl ⟨hboth, _, hagenda, millis_le _, ?_⟩
      rw [Stalls, and_iff_right hboth.2, Nat.not_le, Agenda.now, hclock]
  · next hnot =>
      rw [hguard] at hnot
      exact .inr ⟨hnot, hagenda⟩

/-- A tick that stalls is followed by another, for no later than now. -/
theorem Turned.agenda_of_stalls (h : Turned s s' next agenda) (htick : next.event = .tick)
    (hstalls : Stalls s.monitor.settings.interval s.settings.stopTime next.time) :
    ∃ time, s'.agenda = agenda.enter time .tick ∧ time ≤ agenda.clock := by
  rcases h.agenda_cases with ⟨-, time, hagenda, -, hlater⟩ | ⟨hnot, -⟩
  · refine ⟨time, hagenda, ?_⟩
    rw [Agenda.clock_of_pop? h.popped]
    exact Nat.not_lt.mp fun hlt => hlater.mp hlt hstalls
  · exact absurd ⟨htick, hstalls.1⟩ hnot

theorem Turned.ordered (h : Turned s s' next agenda) (hordered : s.agenda.Ordered) :
    s'.agenda.Ordered := by
  have hpopped := hordered.pop h.popped
  rcases h.agenda_cases with ⟨-, time, heq, hle, -⟩ | ⟨-, heq⟩
  · exact heq ▸ hpopped.enter hle _
  · exact heq ▸ hpopped

theorem Reaches.ordered (h : s.Reaches s') (hordered : s.agenda.Ordered) :
    s'.agenda.Ordered := by
  induction h with
  | refl => exact hordered
  | tail _ hstep ih =>
      obtain ⟨next, agenda, hturned⟩ := turned_of_step? hstep
      exact hturned.ordered ih

theorem Reaches.settings_eq (h : s.Reaches s') :
    s'.settings = s.settings ∧ s'.monitor.settings = s.monitor.settings := by
  induction h with
  | refl => exact ⟨rfl, rfl⟩
  | tail _ hstep ih =>
      obtain ⟨next, agenda, hturned⟩ := turned_of_step? hstep
      exact ⟨hturned.settings_eq.trans ih.1, hturned.monitor_eq.trans ih.2⟩

/-! ### Runs without an end -/

/-- The soonest event is a tick that stalls, and whatever else is left in its millisecond is a tick
too. -/
def Stuck (s : Simulation Float) : Prop :=
  ∃ next agenda, s.agenda.pop? = some (next, agenda) ∧ next.event = .tick ∧
    ¬ s.settings.stopTime < Agenda.seconds next.time ∧
    Stalls s.monitor.settings.interval s.settings.stopTime next.time ∧
    ∀ a ∈ agenda.queue, a.time ≤ next.time → a.event = .tick

/-- Who is stuck turns without fault, and stays stuck. -/
theorem Stuck.turn (h : s.Stuck) (hordered : s.agenda.Ordered) :
    ∃ s', s.step? = some (s', .ok ()) ∧ s'.Stuck := by
  obtain ⟨next, agenda, hpop, htick, hintime, hstalls, hticks⟩ := h
  have hstep : ∃ s', s.step? = some (s', .ok ()) := by
    simp only [step?, hpop, if_neg hintime, htick, dispatch]
    exact ⟨_, rfl⟩
  obtain ⟨s', hstep⟩ := hstep
  refine ⟨s', hstep, ?_⟩
  obtain ⟨next', agenda', hturned⟩ := turned_of_step? hstep
  obtain ⟨rfl, rfl⟩ := Prod.mk.inj (Option.some.inj (hpop.symm.trans hturned.popped))
  obtain ⟨time, hagenda, htime⟩ := hturned.agenda_of_stalls htick hstalls
  obtain ⟨first, later, hpop', hfirst, hmem⟩ :=
    (hordered.pop hpop).pop?_enter htime .tick
  -- Whatever comes next has the same time, so it is a tick, and stalls as the last one did.
  rw [Agenda.clock_of_pop? hpop] at hfirst
  have hstays : ∀ a ∈ first :: later.queue, a.time ≤ next.time → a.event = .tick := by
    intro a ha hle
    rcases hmem a ha with htick | ha
    · exact htick
    · exact hticks a ha hle
  refine ⟨first, later, hagenda ▸ hpop', hstays first List.mem_cons_self hfirst.le, ?_, ?_, ?_⟩
  · rw [hfirst, hturned.settings_eq]
    exact hintime
  · rw [hfirst, hturned.settings_eq, hturned.monitor_eq]
    exact hstalls
  · intro a ha hle
    exact hstays a (List.mem_cons_of_mem _ ha) (hfirst ▸ hle)

theorem Stuck.endless (h : s.Stuck) (hordered : s.agenda.Ordered) (turns : Nat) :
    (s.runFor turns).2 = .endless := by
  induction turns generalizing s with
  | zero => rfl
  | succ turns ih =>
      obtain ⟨s', hstep, hstuck⟩ := h.turn hordered
      obtain ⟨next, agenda, hturned⟩ := turned_of_step? hstep
      rw [runFor, hstep]
      exact ih hstuck (hturned.ordered hordered)

/-- A run that goes on forever from a state that it reaches goes on forever. -/
theorem Reaches.endless (h : s.Reaches s') (hend : ∀ turns, (s'.runFor turns).2 = .endless)
    (turns : Nat) : (s.runFor turns).2 = .endless := by
  induction h using Relation.ReflTransGen.head_induction_on generalizing turns with
  | refl => exact hend turns
  | head hstep _ ih =>
      cases turns with
      | zero => rfl
      | succ turns =>
          rw [runFor, hstep]
          exact ih turns

/-! ### Runs with an end -/

/-- Where nobody is stuck, less is left after every turn. -/
theorem Turned.potential_lt (h : Turned s s' next agenda) (hordered : s.agenda.Ordered)
    (hfree : ¬ s.Stuck) {bound : Nat} (hsize : s.agenda.size ≤ bound) :
    s'.agenda.size ≤ bound ∧ s'.agenda.potential bound < s.agenda.potential bound := by
  have hpopped := hordered.pop h.popped
  have hclock := Agenda.clock_of_pop? h.popped
  have hwork := Agenda.work_of_pop? h.popped
  have hshorter := Agenda.size_of_pop? h.popped
  have hnext : next.time ≤ wordMax := hclock ▸ hpopped.clock_le
  rcases h.agenda_cases with ⟨⟨htick, -⟩, time, heq, -, hlater⟩ | ⟨-, heq⟩
  · have hsize' : s'.agenda.size ≤ bound := by
      rw [heq, Agenda.size_enter]
      omega
    refine ⟨hsize', ?_⟩
    have hcost : Agenda.cost next = wordMax + 1 - next.time := if_pos htick
    have hwork' : s'.agenda.work = agenda.work + (wordMax + 1 - max time next.time) := by
      rw [heq, Agenda.work_enter, ← hclock]
      rfl
    by_cases hstays : next.time < time
    · refine Agenda.potential_lt_of_work_lt ?_ hsize'
      rw [Nat.max_eq_left hstays.le] at hwork'
      omega
    · -- The tick goes behind an event of the same millisecond that is none.
      have hstalls := not_not.mp (hlater.not.mp hstays)
      obtain ⟨other, hother, hle, hevent⟩ : ∃ other ∈ agenda.queue, other.time ≤ next.time ∧
          other.event ≠ .tick := by
        by_contra hnone
        push Not at hnone
        exact hfree ⟨next, agenda, h.popped, htick, h.in_time, hstalls, hnone⟩
      refine Agenda.potential_lt_of_leadingTicks_lt ?_ ?_
      · rw [Nat.max_eq_right (Nat.not_lt.mp hstays)] at hwork'
        omega
      · have hbehind := Agenda.takeWhile_place ⟨max time agenda.clock, agenda.entered, .tick⟩
          hpopped.sorted hother hevent (hle.trans (hclock ▸ Nat.le_max_right ..))
        rw [Agenda.leadingTicks_of_pop? h.popped htick, heq]
        show (List.takeWhile _ (Agenda.place _ _)).length < _
        rw [hbehind]
        exact Nat.lt_succ_self _
  · have hcost := Agenda.cost_pos hnext
    rw [heq]
    exact ⟨by omega, Agenda.potential_lt_of_work_lt (by omega) (by omega)⟩

/-- A run that has not ended has made no more turns than there was work. -/
theorem turns_le_potential {bound turns : Nat} (hordered : s.agenda.Ordered)
    (hsize : s.agenda.size ≤ bound) (hfree : ∀ t, s.Reaches t → ¬ t.Stuck)
    (hend : (s.runFor turns).2 = .endless) : turns ≤ s.agenda.potential bound := by
  induction turns generalizing s with
  | zero => exact Nat.zero_le _
  | succ turns ih =>
      unfold runFor at hend
      split at hend
      · cases hend
      · cases hend
      · next s' hstep =>
          obtain ⟨next, agenda, hturned⟩ := turned_of_step? hstep
          obtain ⟨hsize', hlt⟩ := hturned.potential_lt hordered (hfree s .refl) hsize
          have hle := ih (hturned.ordered hordered) hsize'
            (fun t hreaches => hfree t (.head hstep hreaches)) hend
          omega

/-- A run is over after the turns that it is given, unless it gets stuck. -/
theorem run_endless_iff (hordered : s.agenda.Ordered) :
    s.run.2 = .endless ↔ ∃ t, s.Reaches t ∧ t.Stuck := by
  constructor
  · intro hend
    by_contra hnone
    push Not at hnone
    have hle := turns_le_potential hordered (Nat.le_refl _) hnone hend
    exact Nat.not_lt.mpr hle s.agenda.potential_lt
  · rintro ⟨t, hreaches, hstuck⟩
    exact hreaches.endless (hstuck.endless (hreaches.ordered hordered)) _

theorem forever_iff (hordered : s.agenda.Ordered) :
    (∀ turns, (s.runFor turns).2 = .endless) ↔ s.run.2 = .endless := by
  constructor
  · intro hend
    exact hend _
  · intro hend
    obtain ⟨t, hreaches, hstuck⟩ := (run_endless_iff hordered).mp hend
    exact hreaches.endless (hstuck.endless (hreaches.ordered hordered))

end Simulation

/-! ### Control planes that are built -/

theorem Simulation.ordered_scheduleAll {s : Simulation Float} (h : s.agenda.Ordered)
    (events : List (TimedEvent Float)) : (s.scheduleAll events).agenda.Ordered :=
  List.foldlRecOn (motive := fun t : Simulation Float => t.agenda.Ordered) _ _ h
    fun _ ht _ _ => ht.enter (millis_le _) _

theorem Launch.ordered_start (l : Launch Float) : l.start.agenda.Ordered :=
  Simulation.ordered_scheduleAll (Agenda.ordered_empty.enter (Simulation.millis_le _) _) _

namespace Settings

/-- A tick enters the next one if there is time for it, and nothing else is ever entered; the next
tick is in a later millisecond unless the interval is lost in rounding there. A run goes on forever
if and only if it reaches a state in which such a tick comes next and nothing but ticks is left in
its millisecond; every other run is over after the turns that it is given. -/
theorem ends_unless_stuck {settings : Settings} {files : FileReader (StateM MemoryFiles)}
    {memory : MemoryFiles} {sim : Simulation Float}
    (hbuilt : (memory.outcome (settings.build files)).1 = .ok sim)
    (events : List (TimedEvent Float)) :
    (∀ {s s' : Simulation Float} {next : Appointment} {agenda : Agenda},
      (sim.scheduleAll events).Reaches s → s.step? = some (s', .ok ()) →
        s.agenda.pop? = some (next, agenda) →
          ((next.event = .tick ∧
              Agenda.seconds next.time + settings.monitor.interval ≤ settings.stopTime) ∧
            ∃ time, s'.agenda = agenda.enter time .tick ∧
              (next.time < time ↔
                ¬ Stalls settings.monitor.interval settings.stopTime next.time)) ∨
          ¬ (next.event = .tick ∧
              Agenda.seconds next.time + settings.monitor.interval ≤ settings.stopTime) ∧
            s'.agenda = agenda) ∧
    ((∀ turns, ((sim.scheduleAll events).runFor turns).2 = .endless) ↔
      ∃ s, (sim.scheduleAll events).Reaches s ∧ s.Stuck) ∧
    ((sim.scheduleAll events).run.2 = .endless ↔
      ∃ s, (sim.scheduleAll events).Reaches s ∧ s.Stuck) := by
  obtain ⟨l, rfl, hsettings, hmonitor, -, -⟩ := launch_of_build hbuilt
  have hordered := Simulation.ordered_scheduleAll l.ordered_start events
  refine ⟨fun {s s' next agenda} hreaches hstep hpop => ?_, ?_, Simulation.run_endless_iff hordered⟩
  · obtain ⟨next', agenda', hturned⟩ := Simulation.turned_of_step? hstep
    obtain ⟨rfl, rfl⟩ := Prod.mk.inj (Option.some.inj (hpop.symm.trans hturned.popped))
    obtain ⟨hloop, hwatch⟩ := hreaches.settings_eq
    rw [Launch.scheduleAll_eq, l.settings_start, hsettings] at hloop
    rw [Launch.scheduleAll_eq, l.monitor_start, hmonitor, Monitor.settings_registerAll] at hwatch
    have hcases := hturned.agenda_cases
    rw [hloop, hwatch] at hcases
    exact hcases.imp_left fun ⟨hnext, time, hagenda, _, hlater⟩ => ⟨hnext, time, hagenda, hlater⟩
  · rw [Simulation.forever_iff hordered]
    exact Simulation.run_endless_iff hordered

/-! ### A network of one node -/

/-- One server, and no links. -/
def idle.files : MemoryFiles :=
  .ofList [("nodes", "0 server".toUTF8.toList), ("links", [])]

/-- The greedy strategy on the one server. -/
def idle.configuration (interval stopTime : Float) : Configuration where
  topology := { nodes := "nodes", links := "links" }
  origin := ⟨0⟩
  resolution := { strategy := "greedy" }
  monitor := { interval }
  stopTime

/-- What is built from that if it is accepted. -/
def idle.launched (interval stopTime : Float) : Except Fault (Simulation Float) :=
  (ofConfiguration "" (configuration interval stopTime)).bind fun settings =>
    (files.outcome (settings.build MemoryFiles.current)).1

theorem built_of_idle {interval stopTime : Float} {sim : Simulation Float}
    (h : idle.launched interval stopTime = .ok sim) :
    ∃ settings, ofConfiguration "" (idle.configuration interval stopTime) = .ok settings ∧
      (idle.files.outcome (settings.build MemoryFiles.current)).1 = .ok sim := built_of_launched h

/-- With a tick per second there are three in three seconds. -/
theorem ends_when_idle :
    ∃ settings sim, (idle.files.outcome (Settings.build settings MemoryFiles.current)).1 = .ok sim ∧
      sim.run.2 ≠ .endless := by
  have hover : (idle.launched 1 3).toOption.any (fun sim =>
      match (sim.runFor 4).2 with
      | .finished summary => summary.eventsProcessed = 3
      | _ => false) = true := by
    decide +kernel
  cases hidle : idle.launched 1 3 with
  | error fault =>
      rw [hidle] at hover
      cases hover
  | ok sim =>
      obtain ⟨settings, -, hbuilt⟩ := built_of_idle hidle
      obtain ⟨-, hforever, hrun⟩ := ends_unless_stuck hbuilt []
      refine ⟨settings, sim, hbuilt, fun hend => ?_⟩
      have hfour : (sim.runFor 4).2 = .endless := hforever.mpr (hrun.mp hend) 4
      rw [hidle, Except.toOption, Option.any, hfour] at hover
      cases hover

/-- With an interval of less than half a millisecond, which is accepted, the first tick is for the
start of the clock, and so are all others. -/
theorem forever_when_hasty :
    ∃ settings sim, ofConfiguration "" (idle.configuration 0.0004 30) = .ok settings ∧
      settings.resolution = .greedy ∧
      (idle.files.outcome (settings.build MemoryFiles.current)).1 = .ok sim ∧
      (∃ s' next agenda, sim.step? = some (s', .ok ()) ∧ sim.agenda.pop? = some (next, agenda) ∧
        next.event = .tick ∧ s'.agenda = agenda.enter next.time .tick) ∧
      ∀ turns, (sim.runFor turns).2 = .endless := by
  have hgreedy : (ofConfiguration "" (idle.configuration 0.0004 30)).toOption.all
      (·.resolution = .greedy) = true := by decide +kernel
  have hstart : (idle.launched 0.0004 30).toOption.any (fun sim =>
      sim.agenda.queue = [⟨0, 0, .tick⟩] ∧
        ¬ sim.settings.stopTime < Agenda.seconds 0 ∧
        Stalls sim.monitor.settings.interval sim.settings.stopTime 0) = true := by
    decide +kernel
  cases hidle : idle.launched 0.0004 30 with
  | error fault =>
      rw [hidle] at hstart
      cases hstart
  | ok sim =>
      obtain ⟨settings, haccepted, hbuilt⟩ := built_of_idle hidle
      rw [haccepted] at hgreedy
      rw [hidle] at hstart
      obtain ⟨hqueue, hintime, hstalls⟩ := of_decide_eq_true hstart
      have hpop := Agenda.pop?_eq_some_iff.mpr ⟨[], hqueue, rfl⟩
      have hstuck : sim.Stuck := ⟨_, _, hpop, rfl, hintime, hstalls, fun _ h => by cases h⟩
      obtain ⟨l, rfl, -⟩ := launch_of_build hbuilt
      obtain ⟨s', hstep, -⟩ := hstuck.turn l.ordered_start
      obtain ⟨next, agenda, hturned⟩ := Simulation.turned_of_step? hstep
      obtain ⟨rfl, rfl⟩ := Prod.mk.inj (Option.some.inj (hpop.symm.trans hturned.popped))
      obtain ⟨time, hagenda, htime⟩ := hturned.agenda_of_stalls rfl hstalls
      obtain rfl : time = 0 := Nat.le_zero.mp htime
      exact ⟨settings, _, haccepted, of_decide_eq_true hgreedy, hbuilt,
        ⟨s', _, _, hstep, hpop, rfl, hagenda⟩, hstuck.endless l.ordered_start⟩

end Settings

end StreamPlacement
