import Mathlib.Algebra.Group.Action.Defs
import Mathlib.Algebra.Order.BigOperators.Group.List
import Mathlib.Tactic.Ring
import StreamPlacement.Simulation.Agenda

/-!
The order of an agenda, and how much work is left on it.

Everything on an agenda keeps its time, so all there is to do with one tick per millisecond is
bounded by the range of the clock. What that bound does not see is a tick that is entered again for
the same millisecond; but then it goes behind the other events of the millisecond, and fewer ticks
come before the first of those.
-/

namespace StreamPlacement

namespace Agenda

/-! ### Order -/

/-- Appointments stand in order of time, none of them before the clock, and no time is larger than a
word. -/
structure Ordered (agenda : Agenda) : Prop where
  sorted : agenda.queue.Pairwise fun a b => a.time ≤ b.time
  ahead : ∀ a ∈ agenda.queue, agenda.clock ≤ a.time
  within : ∀ a ∈ agenda.queue, a.time ≤ wordMax
  clock_le : agenda.clock ≤ wordMax

variable {agenda later : Agenda} {next appointment : Appointment} {queue : List Appointment}

theorem ordered_empty : ({} : Agenda).Ordered where
  sorted := .nil
  ahead _ h := by cases h
  within _ h := by cases h
  clock_le := Nat.zero_le _

theorem place_perm (appointment : Appointment) (queue : List Appointment) :
    (place appointment queue).Perm (appointment :: queue) := by
  induction queue with
  | nil => exact .refl _
  | cons next rest ih =>
      unfold place
      split
      · exact .refl _
      · exact (ih.cons next).trans (.swap ..)

theorem mem_place {a : Appointment} :
    a ∈ place appointment queue ↔ a = appointment ∨ a ∈ queue := by
  rw [(place_perm appointment queue).mem_iff, List.mem_cons]

theorem sorted_place (h : queue.Pairwise fun a b => a.time ≤ b.time) (appointment : Appointment) :
    (place appointment queue).Pairwise fun a b => a.time ≤ b.time := by
  induction queue with
  | nil => exact List.pairwise_singleton _ _
  | cons next rest ih =>
      obtain ⟨hnext, hrest⟩ := List.pairwise_cons.mp h
      unfold place
      split
      · next hlt =>
          refine List.pairwise_cons.mpr ⟨fun a ha => ?_, h⟩
          rcases List.mem_cons.mp ha with rfl | ha
          · exact hlt.le
          · exact hlt.le.trans (hnext a ha)
      · next hge =>
          refine List.pairwise_cons.mpr ⟨fun a ha => ?_, ih hrest⟩
          rcases mem_place.mp ha with rfl | ha
          · exact Nat.le_of_not_lt hge
          · exact hnext a ha

theorem Ordered.enter (h : agenda.Ordered) {time : Nat} (htime : time ≤ wordMax) (event : Event) :
    (agenda.enter time event).Ordered where
  sorted := sorted_place h.sorted _
  ahead a ha := by
    rcases mem_place.mp ha with rfl | ha
    · exact Nat.le_max_right ..
    · exact h.ahead a ha
  within a ha := by
    rcases mem_place.mp ha with rfl | ha
    · exact Nat.max_le.mpr ⟨htime, h.clock_le⟩
    · exact h.within a ha
  clock_le := h.clock_le

theorem pop?_eq_some_iff :
    agenda.pop? = some (next, later) ↔
      ∃ queue, agenda.queue = next :: queue ∧ later = { agenda with queue, clock := next.time } := by
  unfold pop?
  cases agenda.queue with
  | nil => simp
  | cons first rest =>
      constructor
      · intro h
        obtain ⟨rfl, rfl⟩ := Prod.mk.inj (Option.some.inj h)
        exact ⟨rest, rfl, rfl⟩
      · rintro ⟨queue, heq, rfl⟩
        obtain ⟨rfl, rfl⟩ := List.cons.inj heq
        rfl

theorem clock_of_pop? (hpop : agenda.pop? = some (next, later)) : later.clock = next.time := by
  obtain ⟨queue, -, rfl⟩ := pop?_eq_some_iff.mp hpop
  rfl

theorem Ordered.pop (h : agenda.Ordered) (hpop : agenda.pop? = some (next, later)) :
    later.Ordered := by
  obtain ⟨queue, hqueue, rfl⟩ := pop?_eq_some_iff.mp hpop
  have hsorted := h.sorted
  rw [hqueue] at hsorted
  obtain ⟨hnext, hrest⟩ := List.pairwise_cons.mp hsorted
  exact ⟨hrest, hnext, fun a ha => h.within a (by simp [hqueue, ha]),
    h.within next (by simp [hqueue])⟩

/-- What is entered for now comes in the same millisecond as whatever else is left of it. -/
theorem Ordered.pop?_enter (h : agenda.Ordered) {time : Nat} (htime : time ≤ agenda.clock)
    (event : Event) :
    ∃ first later, (agenda.enter time event).pop? = some (first, later) ∧
      first.time = agenda.clock ∧
      ∀ a ∈ first :: later.queue, a.event = event ∨ a ∈ agenda.queue := by
  have hentered := h.enter (htime.trans h.clock_le) event
  let appointment : Appointment := ⟨max time agenda.clock, agenda.entered, event⟩
  have hmem : ∀ a, a ∈ (agenda.enter time event).queue ↔ a = appointment ∨ a ∈ agenda.queue :=
    fun a => mem_place
  cases hqueue : (agenda.enter time event).queue with
  | nil =>
      have hin := (hmem appointment).mpr (.inl rfl)
      rw [hqueue] at hin
      cases hin
  | cons first rest =>
      refine ⟨first, _, pop?_eq_some_iff.mpr ⟨rest, hqueue, rfl⟩, Nat.le_antisymm ?_ ?_, ?_⟩
      · -- The appointment itself is for now, and it is the first or behind the first.
        have hnow : appointment.time = agenda.clock := Nat.max_eq_right htime
        have hsorted := hentered.sorted
        have hin := (hmem appointment).mpr (.inl rfl)
        rw [hqueue] at hsorted hin
        rcases List.mem_cons.mp hin with heq | hin
        · exact (heq ▸ hnow).le
        · exact hnow ▸ (List.pairwise_cons.mp hsorted).1 appointment hin
      · exact hentered.ahead first (by rw [hqueue]; exact List.mem_cons_self)
      · intro a ha
        rcases (hmem a).mp (hqueue ▸ ha) with rfl | ha
        · exact .inl rfl
        · exact .inr ha

/-! ### Work -/

/-- What one appointment costs: a tick may come again in every millisecond from its own on. -/
def cost (appointment : Appointment) : Nat :=
  if appointment.event = .tick then wordMax + 1 - appointment.time else 1

/-- What all appointments cost together. -/
def work (agenda : Agenda) : Nat := (agenda.queue.map cost).sum

/-- The number of ticks before the first event that is none. -/
def leadingTicks (agenda : Agenda) : Nat :=
  (agenda.queue.takeWhile (·.event = .tick)).length

theorem cost_pos (h : appointment.time ≤ wordMax) : 0 < cost appointment := by
  unfold cost
  split <;> omega

theorem cost_le (appointment : Appointment) : cost appointment ≤ wordMax + 1 := by
  unfold cost
  split <;> omega

theorem work_le (agenda : Agenda) : agenda.work ≤ agenda.size * (wordMax + 1) := by
  have hle := List.sum_le_card_nsmul (agenda.queue.map cost) (wordMax + 1) fun x hx => by
    obtain ⟨a, -, rfl⟩ := List.mem_map.mp hx
    exact cost_le a
  rwa [List.length_map, smul_eq_mul] at hle

theorem leadingTicks_le (agenda : Agenda) : agenda.leadingTicks ≤ agenda.size :=
  (List.takeWhile_sublist _).length_le

theorem work_enter (agenda : Agenda) (time : Nat) (event : Event) :
    (agenda.enter time event).work =
      agenda.work + cost ⟨max time agenda.clock, agenda.entered, event⟩ := by
  have hperm := (place_perm ⟨max time agenda.clock, agenda.entered, event⟩ agenda.queue).map cost
  show ((place _ agenda.queue).map cost).sum = _
  rw [hperm.sum_eq, List.map_cons, List.sum_cons, Nat.add_comm]
  rfl

@[simp] theorem size_enter (agenda : Agenda) (time : Nat) (event : Event) :
    (agenda.enter time event).size = agenda.size + 1 :=
  (place_perm _ _).length_eq

theorem work_of_pop? (hpop : agenda.pop? = some (next, later)) :
    agenda.work = cost next + later.work := by
  obtain ⟨queue, hqueue, rfl⟩ := pop?_eq_some_iff.mp hpop
  simp [work, hqueue]

theorem size_of_pop? (hpop : agenda.pop? = some (next, later)) :
    agenda.size = later.size + 1 := by
  obtain ⟨queue, hqueue, rfl⟩ := pop?_eq_some_iff.mp hpop
  simp [size, hqueue]

theorem leadingTicks_of_pop? (hpop : agenda.pop? = some (next, later)) (htick : next.event = .tick) :
    agenda.leadingTicks = later.leadingTicks + 1 := by
  obtain ⟨queue, hqueue, rfl⟩ := pop?_eq_some_iff.mp hpop
  simp [leadingTicks, hqueue, htick]

/-- An appointment behind an event that is no tick does not come before the first of those. -/
theorem takeWhile_place (appointment : Appointment)
    (hsorted : queue.Pairwise fun a b => a.time ≤ b.time) {other : Appointment}
    (hother : other ∈ queue) (hevent : other.event ≠ .tick)
    (hle : other.time ≤ appointment.time) :
    (place appointment queue).takeWhile (·.event = .tick) =
      queue.takeWhile (·.event = .tick) := by
  induction queue with
  | nil => cases hother
  | cons first rest ih =>
      obtain ⟨hfirst, hrest⟩ := List.pairwise_cons.mp hsorted
      -- The other event is not later, so the head of the queue is not, and stays in front.
      have hnot : ¬ appointment.time < first.time := by
        rcases List.mem_cons.mp hother with rfl | hother
        · exact Nat.not_lt.mpr hle
        · exact Nat.not_lt.mpr ((hfirst other hother).trans hle)
      rw [place, if_neg hnot, List.takeWhile_cons, List.takeWhile_cons]
      by_cases htick : first.event = .tick
      · have hmem : other ∈ rest := (List.mem_cons.mp hother).resolve_left fun heq =>
          hevent (heq ▸ htick)
        rw [ih hrest hmem]
      · simp [htick]

/-! ### What the work comes to -/

/-- Work first and leading ticks second, as one number, for agendas of at most `bound` events. -/
def potential (agenda : Agenda) (bound : Nat) : Nat :=
  agenda.work * (bound + 1) + agenda.leadingTicks

theorem potential_lt_of_work_lt {bound : Nat} (hwork : later.work < agenda.work)
    (hsize : later.size ≤ bound) : later.potential bound < agenda.potential bound := by
  have hleading := later.leadingTicks_le.trans hsize
  have hmul : (later.work + 1) * (bound + 1) ≤ agenda.work * (bound + 1) :=
    Nat.mul_le_mul_right _ hwork
  rw [Nat.add_mul, Nat.one_mul] at hmul
  unfold potential
  omega

theorem potential_lt_of_leadingTicks_lt {bound : Nat} (hwork : later.work = agenda.work)
    (hleading : later.leadingTicks < agenda.leadingTicks) :
    later.potential bound < agenda.potential bound := by
  unfold potential
  rw [hwork]
  omega

theorem potential_lt (agenda : Agenda) :
    agenda.potential agenda.size < (agenda.size + 1) * (agenda.size + 1) * (wordMax + 1) := by
  have hwork : agenda.work * (agenda.size + 1) ≤
      agenda.size * (wordMax + 1) * (agenda.size + 1) := Nat.mul_le_mul_right _ agenda.work_le
  have hleading := agenda.leadingTicks_le
  have hpos : agenda.size + 1 ≤ (wordMax + 1) * (agenda.size + 1) := Nat.le_mul_of_pos_left _ (by omega)
  calc
    agenda.potential agenda.size ≤
        agenda.size * (wordMax + 1) * (agenda.size + 1) + agenda.size := by
      unfold potential
      omega
    _ < agenda.size * (wordMax + 1) * (agenda.size + 1) + (wordMax + 1) * (agenda.size + 1) := by
      omega
    _ = (agenda.size + 1) * (agenda.size + 1) * (wordMax + 1) := by
      ring

end Agenda

end StreamPlacement
