import StreamPlacement.Proofs.Simulation.Agenda
import StreamPlacement.Proofs.Simulation.Turns

/-!
Other agendas.

Nothing that is handled looks at the agenda but for the clock. So a control plane with another
agenda of the same clock handles an event alike; and an agenda from which all activations are left
out has the rest in the same order, whatever is entered later.
-/

namespace StreamPlacement

/-! ### Agendas -/

namespace Appointment

/-- What happens, and when. -/
def act (appointment : Appointment) : Nat × Event := (appointment.time, appointment.event)

theorem time_eq_of_act_eq {a b : Appointment} (h : a.act = b.act) : a.time = b.time :=
  congrArg Prod.fst h

theorem event_eq_of_act_eq {a b : Appointment} (h : a.act = b.act) : a.event = b.event :=
  congrArg Prod.snd h

end Appointment

namespace Agenda

open Appointment (act)

variable {a b : Appointment} {queue others : List Appointment}

theorem place_eq_cons (h : ∀ next ∈ queue, a.time < next.time) : place a queue = a :: queue := by
  cases queue with
  | nil => rfl
  | cons next rest => exact if_pos (h next List.mem_cons_self)

/-- Where an appointment is placed depends on the times alone. -/
theorem map_act_place (h : queue.map act = others.map act) (hact : a.act = b.act) :
    (place a queue).map act = (place b others).map act := by
  induction queue generalizing others with
  | nil =>
      obtain rfl := List.map_eq_nil_iff.mp h.symm
      exact congrArg (· :: []) hact
  | cons next rest ih =>
      obtain ⟨next', rest', rfl, hnext, hrest⟩ := List.map_eq_cons_iff.mp h.symm
      unfold place
      rw [Appointment.time_eq_of_act_eq hact, ← Appointment.time_eq_of_act_eq hnext]
      split
      · simp only [List.map_cons, hact, hnext, hrest]
      · simp only [List.map_cons, hnext, ih hrest.symm]

/-- An appointment is placed among those that are kept as it is among all. -/
theorem filter_place {keep : Appointment → Bool}
    (hsorted : queue.Pairwise fun a b => a.time ≤ b.time) (hkeep : keep a) :
    (place a queue).filter keep = place a (queue.filter keep) := by
  induction queue with
  | nil => exact List.filter_cons_of_pos hkeep
  | cons next rest ih =>
      obtain ⟨hnext, hrest⟩ := List.pairwise_cons.mp hsorted
      by_cases hlt : a.time < next.time
      · have hlater : ∀ other ∈ (next :: rest).filter keep, a.time < other.time := by
          intro other hother
          rcases List.mem_cons.mp (List.mem_of_mem_filter hother) with rfl | hother
          · exact hlt
          · exact hlt.trans_le (hnext other hother)
        rw [place, if_pos hlt, List.filter_cons_of_pos hkeep, place_eq_cons hlater]
      · rw [place, if_neg hlt]
        by_cases hkept : keep next
        · rw [List.filter_cons_of_pos hkept, List.filter_cons_of_pos hkept, ih hrest, place,
            if_neg hlt]
        · rw [List.filter_cons_of_neg hkept, List.filter_cons_of_neg hkept, ih hrest]

theorem filter_place_of_not {keep : Appointment → Bool} (hkeep : ¬ keep a) :
    (place a queue).filter keep = queue.filter keep := by
  induction queue with
  | nil => exact List.filter_cons_of_neg hkeep
  | cons next rest ih =>
      unfold place
      split
      · exact List.filter_cons_of_neg hkeep
      · rw [List.filter_cons, List.filter_cons, ih]

/-- The same is to come on one agenda as on another, but for activations, which the one has not. -/
def Without (spared agenda : Agenda) : Prop :=
  spared.queue.map act = (agenda.queue.filter (·.event ≠ .activation)).map act

variable {agenda spared later : Agenda} {next : Appointment}

theorem Without.enter (h : spared.Without agenda)
    (hsorted : agenda.queue.Pairwise fun a b => a.time ≤ b.time)
    (hclock : spared.clock = agenda.clock) (time : Nat) {event : Event}
    (hevent : event ≠ .activation) :
    (spared.enter time event).Without (agenda.enter time event) := by
  unfold Without Agenda.enter
  rw [filter_place hsorted (by simpa using hevent)]
  refine map_act_place h ?_
  rw [act, act, hclock]

theorem Without.enter_activation (h : spared.Without agenda) (time : Nat) :
    spared.Without (agenda.enter time .activation) := by
  unfold Without Agenda.enter
  rw [filter_place_of_not (by simp)]
  exact h

theorem Without.pop?_eq_none (h : spared.Without agenda) (hpop : agenda.pop? = none) :
    spared.pop? = none := by
  have hqueue : agenda.queue = [] := by
    unfold pop? at hpop
    split at hpop
    · assumption
    · cases hpop
  have hempty : spared.queue = [] := by
    rw [← List.map_eq_nil_iff, h, hqueue]
    rfl
  rw [pop?, hempty]

theorem Without.of_pop_activation (h : spared.Without agenda)
    (hpop : agenda.pop? = some (next, later)) (hevent : next.event = .activation) :
    spared.Without later := by
  obtain ⟨queue, hqueue, rfl⟩ := pop?_eq_some_iff.mp hpop
  unfold Without at h ⊢
  rwa [hqueue, List.filter_cons_of_neg (by simpa using hevent)] at h

theorem Without.pop (h : spared.Without agenda) (hpop : agenda.pop? = some (next, later))
    (hevent : next.event ≠ .activation) :
    ∃ next' later', spared.pop? = some (next', later') ∧ next'.act = next.act ∧
      later'.Without later := by
  obtain ⟨queue, hqueue, rfl⟩ := pop?_eq_some_iff.mp hpop
  unfold Without at h
  rw [hqueue, List.filter_cons_of_pos (by simpa using hevent), List.map_cons] at h
  obtain ⟨next', queue', hqueue', hnext, hrest⟩ := List.map_eq_cons_iff.mp h
  exact ⟨next', _, pop?_eq_some_iff.mpr ⟨queue', hqueue', rfl⟩, hnext, hrest⟩

theorem Without.mem (h : spared.Without agenda) (ha : a ∈ spared.queue) :
    ∃ same ∈ agenda.queue, same.act = a.act := by
  have hmem : a.act ∈ (agenda.queue.filter (·.event ≠ .activation)).map act :=
    h ▸ List.mem_map_of_mem ha
  obtain ⟨same, hsame, hact⟩ := List.mem_map.mp hmem
  exact ⟨same, List.mem_of_mem_filter hsame, hact⟩

/-- Nothing to come is sooner than what comes first. -/
theorem Ordered.le_of_pop? (h : agenda.Ordered) (hpop : agenda.pop? = some (next, later))
    (ha : a ∈ agenda.queue) : next.time ≤ a.time := by
  obtain ⟨queue, hqueue, -⟩ := pop?_eq_some_iff.mp hpop
  have hsorted := h.sorted
  rw [hqueue] at ha hsorted
  rcases List.mem_cons.mp ha with rfl | ha
  · exact Nat.le_refl _
  · exact (List.pairwise_cons.mp hsorted).1 a ha

end Agenda

/-! ### Other agendas -/

namespace Simulation

section

variable {α : Type} [Quantity α]

/-- The same control plane with another agenda, and another count of events. -/
def rescheduled (s : Simulation α) (agenda : Agenda) (processed : Nat) : Simulation α :=
  { s with agenda, processed }

variable {s : Simulation α} {agenda : Agenda} {processed : Nat}

omit [Quantity α] in
theorem placement_rescheduled : (s.rescheduled agenda processed).placement = s.placement := rfl

theorem arrive_rescheduled (s : Simulation α) (agenda : Agenda) (processed : Nat) (user : UserId)
    (content : ContentId) (server : Option NodeId) :
    (s.rescheduled agenda processed).arrive user content server =
      ((s.arrive user content server).1.rescheduled agenda processed,
        (s.arrive user content server).2) := by
  unfold arrive rescheduled
  dsimp only
  split
  · rfl
  · split
    · rfl
    · rfl
    · split
      · split <;> rfl
      · rfl

theorem measured_rescheduled (s : Simulation α) (agenda : Agenda) (processed : Nat) :
    (s.rescheduled agenda processed).measured = s.measured.rescheduled agenda processed := by
  unfold measured
  rw [apply_ite (rescheduled · agenda processed)]
  rfl

theorem reacted_rescheduled (s : Simulation α) (agenda : Agenda) (processed : Nat) :
    (s.rescheduled agenda processed).reacted = s.reacted.rescheduled agenda processed := by
  unfold reacted
  rw [apply_ite (rescheduled · agenda processed)]
  rfl

/-- What an event does depends on the agenda only by its clock. -/
theorem dispatch_rescheduled (hclock : agenda.clock = s.agenda.clock) (event : Event) :
    (s.rescheduled agenda processed).dispatch event =
      ((s.dispatch event).1.rescheduled
        (if event = .tick ∧ s.Continues then agenda.enterIn s.monitor.settings.interval .tick
          else agenda) processed,
        (s.dispatch event).2) := by
  cases event with
  | arrival user content server =>
      rw [if_neg (by simp)]
      exact arrive_rescheduled s agenda processed user content server
  | traffic e bytes => rfl
  | tick =>
      obtain ⟨monitor, placement, hmonitor, hreacted⟩ := reacted_measured_eq s
      have hcontinues := continues_iff placement hmonitor
      have hcontinues' : (({ s with monitor, placement } : Simulation α).rescheduled agenda
          processed).Continues ↔ s.Continues := by
        have hnow : (agenda.now : α) = s.agenda.now := congrArg Agenda.seconds hclock
        rw [Continues, Continues, ← hmonitor, ← hnow]
        rfl
      refine Prod.ext ?_ rfl
      show (s.rescheduled agenda processed).endInterval = s.endInterval.rescheduled _ processed
      rw [endInterval_eq, endInterval_eq, measured_rescheduled, reacted_rescheduled, hreacted]
      by_cases hmore : s.Continues
      · rw [if_pos (hcontinues'.mpr hmore), if_pos (hcontinues.mpr hmore), if_pos ⟨rfl, hmore⟩,
          ← hmonitor]
        rfl
      · rw [if_neg (hcontinues'.not.mpr hmore), if_neg (hcontinues.not.mpr hmore),
          if_neg fun hboth => hmore hboth.2]
  | activation => rfl

theorem processed_dispatch (s : Simulation α) (event : Event) :
    (s.dispatch event).1.processed = s.processed := by
  have heq : (s.rescheduled s.agenda s.processed).dispatch event = _ :=
    dispatch_rescheduled rfl event
  exact congrArg (·.1.processed) heq

/-! ### Turns without a solver -/

/-- An event that was handled is counted, unless it failed. -/
def counted : Simulation α × Except Fault Unit → Simulation α × Except Fault Unit
  | (s, .ok ()) => ({ s with processed := s.processed + 1 }, .ok ())
  | (s, .error fault) => (s, .error fault)

omit [Quantity α] in
theorem worker_counted (handled : Simulation α × Except Fault Unit) :
    (counted handled).1.worker = handled.1.worker := by
  unfold counted
  split <;> rfl

/-- There is nothing in a turn behind the event. -/
theorem step?_of_no_worker (hworker : s.worker = none) {next : Appointment}
    (hpop : s.agenda.pop? = some (next, agenda))
    (hintime : ¬ s.settings.stopTime < Agenda.seconds next.time) :
    s.step? = some (counted ({ s with agenda }.dispatch next.event)) := by
  have hgone := (handled_dispatch { s with agenda } next.event).worker_eq.trans hworker
  unfold step?
  rw [hpop]
  dsimp only
  rw [if_neg hintime]
  split
  · next heq =>
      rw [heq]
      rfl
  · next handled heq =>
      rw [heq] at hgone ⊢
      rw [collect_of_no_worker (s := { handled with processed := handled.processed + 1 }) hgone]
      rfl

end

end Simulation

end StreamPlacement
