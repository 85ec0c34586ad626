import Mathlib.Data.List.Nodup
import StreamPlacement.Proofs.Simulation.Agenda

/-!
The history of an agenda.

A ledger is kept beside the agenda: what was entered, each with its time and number, and what was
taken. It knows nothing of a queue. What is waiting is whatever was entered and not taken, and what
the clock says is the time of what was taken last. Any uses of the agenda, in any order, agree with
the ledger.
-/

namespace StreamPlacement

/-- One appointment comes before another: it is earlier, or it was entered earlier for the same
time. -/
def Appointment.Before (a b : Appointment) : Prop :=
  a.time < b.time ∨ a.time = b.time ∧ a.number < b.number

theorem Appointment.Before.time_le {a b : Appointment} (h : a.Before b) : a.time ≤ b.time := by
  rcases h with hlt | ⟨heq, -⟩
  · exact hlt.le
  · exact heq.le

namespace Agenda

/-- What can be done with an agenda. -/
inductive Use (α : Type)
  | enterAt (time : α) (event : Event)
  | enterIn (delay : α) (event : Event)
  | pop

/-- What was entered and what was taken, in order. -/
structure Ledger where
  entered : List Appointment := []
  taken : List Appointment := []

namespace Ledger

/-- The time of what was taken last. -/
def clock (ledger : Ledger) : Nat := (ledger.taken.getLast?.map Appointment.time).getD 0

/-- What was entered and not taken. -/
def waiting (ledger : Ledger) : List Appointment := ledger.entered.filter (· ∉ ledger.taken)

/-- Enters an event with the next number; a time that has passed becomes now. -/
def enter (ledger : Ledger) (time : Nat) (event : Event) : Ledger :=
  { ledger with entered :=
      ledger.entered ++ [⟨max time ledger.clock, ledger.entered.length, event⟩] }

/-- Enters what was taken. -/
def take (ledger : Ledger) (appointment : Appointment) : Ledger :=
  { ledger with taken := ledger.taken ++ [appointment] }

end Ledger

variable {α : Type} [Quantity α]

/-- An agenda and its ledger after one more use. -/
def use : Agenda × Ledger → Use α → Agenda × Ledger
  | (agenda, ledger), .enterAt time event =>
    (agenda.enterAt time event, ledger.enter (millis time) event)
  | (agenda, ledger), .enterIn delay event =>
    (agenda.enterIn delay event, ledger.enter (millis ((seconds ledger.clock : α) + delay)) event)
  | (agenda, ledger), .pop =>
    match agenda.pop? with
    | none => (agenda, ledger)
    | some (next, later) => (later, ledger.take next)

/-- An empty agenda and its ledger after some uses. -/
def history (uses : List (Use α)) : Agenda × Ledger := uses.foldl use ({}, {})

/-! ### Agreement -/

/-- The agenda holds in order what is left of the ledger. -/
structure Agrees (agenda : Agenda) (ledger : Ledger) : Prop where
  clock_eq : agenda.clock = ledger.clock
  entered_eq : agenda.entered = ledger.entered.length
  numbers : ledger.entered.map Appointment.number = List.range ledger.entered.length
  perm : (ledger.taken ++ agenda.queue).Perm ledger.entered
  sorted : agenda.queue.Pairwise Appointment.Before
  ahead : ∀ a ∈ agenda.queue, agenda.clock ≤ a.time
  taken : ledger.taken.Pairwise fun a b => a.time ≤ b.time
  behind : ∀ a ∈ ledger.taken, a.time ≤ agenda.clock

variable {agenda later : Agenda} {ledger : Ledger} {next appointment : Appointment}
  {queue : List Appointment}

theorem agrees_empty : Agrees {} {} where
  clock_eq := rfl
  entered_eq := rfl
  numbers := rfl
  perm := .refl _
  sorted := .nil
  ahead _ h := by cases h
  taken := .nil
  behind _ h := by cases h

/-- What is entered last has the largest number, so it comes after all that is not later. -/
theorem before_place (h : queue.Pairwise Appointment.Before)
    (hlast : ∀ a ∈ queue, a.number < appointment.number) :
    (place appointment queue).Pairwise Appointment.Before := by
  induction queue with
  | nil => exact List.pairwise_singleton _ _
  | cons first rest ih =>
      obtain ⟨hfirst, hrest⟩ := List.pairwise_cons.mp h
      obtain ⟨hnumber, hlast⟩ := List.forall_mem_cons.mp hlast
      unfold place
      split
      · next hlt =>
          refine List.pairwise_cons.mpr ⟨fun a ha => ?_, h⟩
          rcases List.mem_cons.mp ha with rfl | ha
          · exact .inl hlt
          · exact .inl (Nat.lt_of_lt_of_le hlt (hfirst a ha).time_le)
      · next hge =>
          refine List.pairwise_cons.mpr ⟨fun a ha => ?_, ih hrest hlast⟩
          rcases mem_place.mp ha with rfl | ha
          · rcases Nat.lt_or_eq_of_le (Nat.le_of_not_lt hge) with hlt | heq
            · exact .inl hlt
            · exact .inr ⟨heq, hnumber⟩
          · exact hfirst a ha

namespace Agrees

theorem mem_entered (h : Agrees agenda ledger) (hin : appointment ∈ agenda.queue) :
    appointment ∈ ledger.entered :=
  h.perm.subset (List.mem_append_right _ hin)

theorem number_lt (h : Agrees agenda ledger) (hin : appointment ∈ ledger.entered) :
    appointment.number < ledger.entered.length := by
  have hmem : appointment.number ∈ ledger.entered.map Appointment.number := List.mem_map_of_mem hin
  rwa [h.numbers, List.mem_range] at hmem

theorem nodup_entered (h : Agrees agenda ledger) : ledger.entered.Nodup := by
  refine List.Nodup.of_map Appointment.number ?_
  rw [h.numbers]
  exact List.nodup_range

theorem enter (h : Agrees agenda ledger) (time : Nat) (event : Event) :
    Agrees (agenda.enter time event) (ledger.enter time event) := by
  let appointment : Appointment := ⟨max time agenda.clock, agenda.entered, event⟩
  have hledger : (ledger.enter time event).entered = ledger.entered ++ [appointment] := by
    simp [appointment, Ledger.enter, h.clock_eq, h.entered_eq]
  constructor
  case clock_eq => exact h.clock_eq
  case entered_eq => simp [Agenda.enter, Ledger.enter, h.entered_eq]
  case numbers =>
    have hnumber : appointment.number = ledger.entered.length := h.entered_eq
    rw [hledger, List.map_append, h.numbers, List.length_append, List.length_singleton,
      List.range_succ, List.map_singleton, hnumber]
  case perm =>
    rw [hledger]
    calc
      List.Perm (ledger.taken ++ place appointment agenda.queue)
          (ledger.taken ++ appointment :: agenda.queue) := (place_perm ..).append_left _
      List.Perm _ (appointment :: (ledger.taken ++ agenda.queue)) := List.perm_middle
      List.Perm _ (appointment :: ledger.entered) := h.perm.cons _
      List.Perm _ (ledger.entered ++ [appointment]) := (List.perm_append_singleton ..).symm
  case sorted =>
    refine before_place h.sorted fun a ha => ?_
    exact h.entered_eq ▸ h.number_lt (h.mem_entered ha)
  case ahead =>
    intro a ha
    rcases mem_place.mp ha with rfl | ha
    · exact Nat.le_max_right ..
    · exact h.ahead a ha
  case taken => exact h.taken
  case behind => exact h.behind

theorem take (h : Agrees agenda ledger) (hpop : agenda.pop? = some (next, later)) :
    Agrees later (ledger.take next) := by
  obtain ⟨queue, hqueue, rfl⟩ := pop?_eq_some_iff.mp hpop
  have hsorted := h.sorted
  rw [hqueue] at hsorted
  obtain ⟨hnext, hrest⟩ := List.pairwise_cons.mp hsorted
  have hclock : agenda.clock ≤ next.time := h.ahead next (hqueue ▸ List.mem_cons_self)
  constructor
  case clock_eq => simp [Ledger.take, Ledger.clock]
  case entered_eq => exact h.entered_eq
  case numbers => exact h.numbers
  case perm =>
    have hperm := h.perm
    rwa [hqueue, List.append_cons] at hperm
  case sorted => exact hrest
  case ahead => exact fun a ha => (hnext a ha).time_le
  case taken =>
    refine List.pairwise_append.mpr ⟨h.taken, List.pairwise_singleton _ _, fun a ha b hb => ?_⟩
    obtain rfl := List.mem_singleton.mp hb
    exact (h.behind a ha).trans hclock
  case behind =>
    intro a ha
    rcases List.mem_append.mp ha with ha | ha
    · exact (h.behind a ha).trans hclock
    · exact (congrArg Appointment.time (List.mem_singleton.mp ha)).le

theorem use (h : Agrees agenda ledger) (next : Use α) :
    Agrees (Agenda.use (agenda, ledger) next).1 (Agenda.use (agenda, ledger) next).2 := by
  cases next with
  | enterAt time event => exact h.enter _ event
  | enterIn delay event =>
      have hnow : agenda.enterIn delay event =
          agenda.enter (millis ((seconds ledger.clock : α) + delay)) event := by
        rw [enterIn, now, h.clock_eq]
        rfl
      rw [Agenda.use, hnow]
      exact h.enter _ event
  | pop =>
      rw [Agenda.use]
      split
      · exact h
      · next hpop => exact h.take hpop

/-- The queue is what is waiting. -/
theorem mem_waiting (h : Agrees agenda ledger) :
    appointment ∈ ledger.waiting ↔ appointment ∈ agenda.queue := by
  have hnodup := h.perm.nodup_iff.mpr h.nodup_entered
  rw [Ledger.waiting, List.mem_filter, ← h.perm.mem_iff, List.mem_append, decide_eq_true_iff]
  constructor
  · rintro ⟨htaken | hqueue, hnot⟩
    · exact absurd htaken hnot
    · exact hqueue
  · intro hqueue
    exact ⟨.inr hqueue, fun htaken => List.disjoint_of_nodup_append hnodup htaken hqueue⟩

/-- No use turns the clock back. -/
theorem clock_le_use (h : Agrees agenda ledger) (next : Use α) :
    agenda.clock ≤ (Agenda.use (agenda, ledger) next).1.clock := by
  cases next with
  | enterAt time event => exact Nat.le_refl _
  | enterIn delay event => exact Nat.le_refl _
  | pop =>
      rw [Agenda.use]
      split
      · exact Nat.le_refl _
      · next hpop =>
          obtain ⟨queue, hqueue, rfl⟩ := pop?_eq_some_iff.mp hpop
          exact h.ahead _ (hqueue ▸ List.mem_cons_self)

end Agrees

theorem agrees_foldl {state : Agenda × Ledger} (h : Agrees state.1 state.2)
    (uses : List (Use α)) : Agrees (uses.foldl use state).1 (uses.foldl use state).2 := by
  induction uses generalizing state with
  | nil => exact h
  | cons next uses ih => exact ih (h.use next)

theorem clock_le_foldl {state : Agenda × Ledger} (h : Agrees state.1 state.2)
    (uses : List (Use α)) : state.1.clock ≤ (uses.foldl use state).1.clock := by
  induction uses generalizing state with
  | nil => exact Nat.le_refl _
  | cons next uses ih => exact (h.clock_le_use next).trans (ih (h.use next))

/-- After any uses of an agenda, whatever the times: appointments are numbered as they were entered;
none is taken twice, and none that was not entered; the clock is the time of what was taken last,
and never goes back; the time that is announced for the next is the time it comes with; nothing
comes only if nothing is waiting; and what comes is, of all that is waiting, the first by time and
number. -/
theorem history_in_turn (uses : List (Use α)) :
    let agenda := (history uses).1
    let ledger := (history uses).2
    ledger.entered.map Appointment.number = List.range ledger.entered.length ∧
    ledger.taken.Nodup ∧ ledger.taken ⊆ ledger.entered ∧
    (ledger.taken ++ ledger.waiting).Perm ledger.entered ∧
    agenda.clock = ledger.clock ∧
    (∀ more, agenda.clock ≤ (history (uses ++ more)).1.clock) ∧
    (agenda.peek? : Option α) = agenda.pop?.map (fun (_, later) => later.now) ∧
    (agenda.pop? = none ↔ ledger.waiting = []) ∧
    ∀ next later, agenda.pop? = some (next, later) →
      next ∈ ledger.waiting ∧ (∀ other ∈ ledger.waiting, other ≠ next → next.Before other) ∧
      agenda.clock ≤ next.time ∧ later.clock = next.time := by
  intro agenda ledger
  have h : Agrees agenda ledger := agrees_foldl agrees_empty uses
  have hnodup := h.perm.nodup_iff.mpr h.nodup_entered
  have hwaiting : ledger.waiting.Perm agenda.queue :=
    (List.perm_ext_iff_of_nodup (h.nodup_entered.filter _) hnodup.of_append_right).mpr
      fun _ => h.mem_waiting
  refine ⟨h.numbers, hnodup.of_append_left, ?_, ?_, h.clock_eq, ?_, ?_, ?_, ?_⟩
  · exact fun a ha => h.perm.subset (List.mem_append_left _ ha)
  · exact (hwaiting.append_left _).trans h.perm
  · intro more
    rw [history, List.foldl_append]
    exact clock_le_foldl h more
  · rw [peek?, pop?]
    cases agenda.queue <;> rfl
  · rw [← List.perm_nil, hwaiting.congr_left, List.perm_nil, pop?]
    cases agenda.queue <;> simp
  · intro next later hpop
    obtain ⟨queue, hqueue, rfl⟩ := pop?_eq_some_iff.mp hpop
    have hsorted := h.sorted
    rw [hqueue] at hsorted
    have hin : next ∈ agenda.queue := hqueue ▸ List.mem_cons_self
    refine ⟨h.mem_waiting.mpr hin, fun other hother hne => ?_, h.ahead next hin, rfl⟩
    have hmem := h.mem_waiting.mp hother
    rw [hqueue] at hmem
    exact (List.pairwise_cons.mp hsorted).1 other ((List.mem_cons.mp hmem).resolve_left hne)

/-- What is entered for a time that has passed comes after what was entered before it for now. -/
example :
    ((history [.enterAt 2 .tick, .enterAt 1 .activation, .enterAt 2 .activation, .pop, .pop,
        .enterAt (-1 : Rat) .tick, .enterIn (1 / 2) .tick, .pop, .pop]).2.taken.map fun a =>
      (a.time, a.number)) = [(1000, 1), (2000, 0), (2000, 2), (2000, 3)] := by
  decide +kernel

end Agenda

end StreamPlacement
