import StreamPlacement.Proofs.Simulation.Session

/-!
The moments of a control plane: with any workload entered, after any number of turns of its loop,
and at any point of a session with a solver whose answers come when they come.

Whatever every event and every answer keeps of the placement is there at every moment. Both are
looked at from outside the loop, with any agenda and any worker, so that what is kept does not
depend on who turns the loop.
-/

namespace StreamPlacement

variable {α : Type} [Quantity α]

namespace Simulation

/-- A control plane can come to this. -/
inductive Moment (s : Simulation α) : Simulation α → Prop
  | turned (events : List (TimedEvent α)) (turns : Nat) :
    Moment s ((s.scheduleAll events).runFor turns).1
  | session (events : List (TimedEvent α)) {respond : Solver.Request → Solver.Reply → Prop}
      {x : Session α}
      (reached : Relation.ReflTransGen (Session.Step respond)
        { loop := { plane := s.scheduleAll events } } x) :
    Moment s x.loop.plane

/-- Events and answers keep a property of the placement. -/
structure Kept (P : Placement α → Prop) : Prop where
  dispatch : ∀ (s : Simulation α) (event : Event), P s.placement →
    P (s.dispatch event).1.placement
  apply : ∀ (s : Simulation α) (answer : Solver.Answer), P s.placement →
    P (s.apply answer).placement

namespace Kept

variable {P : Placement α → Prop} {s s' : Simulation α}

theorem collectUpTo (hkept : Kept P) (h : P s.placement) (wait : Bool) (count : Nat) :
    P (collectUpTo wait count s).placement := by
  induction count generalizing s with
  | zero => exact h
  | succ count ih =>
      unfold Simulation.collectUpTo
      split
      · exact h
      · next answer s' heq =>
          obtain ⟨worker, next, -, -, rfl⟩ := nextAnswer?_eq_some heq
          exact ih (hkept.apply _ answer h)

theorem step? (hkept : Kept P) (h : P s.placement) {outcome : Except Fault Unit}
    (hstep : s.step? = some (s', outcome)) : P s'.placement := by
  obtain ⟨next, agenda, -, -, ⟨fault, -, heq⟩ | ⟨handled, -, heq, rfl⟩⟩ := step?_eq_some hstep
  all_goals
    have hdispatch := hkept.dispatch { s with agenda } next.event h
    rw [heq] at hdispatch
  · exact hdispatch
  · exact hkept.collectUpTo (s := { handled with processed := handled.processed + 1 }) hdispatch _ _

theorem runFor (hkept : Kept P) (h : P s.placement) (turns : Nat) :
    P (s.runFor turns).1.placement := by
  induction turns generalizing s with
  | zero => exact h
  | succ turns ih =>
      unfold Simulation.runFor
      split
      · exact hkept.collectUpTo h _ _
      · next hstep => exact hkept.step? h hstep
      · next hstep => exact ih (hkept.step? h hstep)

theorem session (hkept : Kept P) {respond : Solver.Request → Solver.Reply → Prop}
    {x y : Session α} (h : P x.loop.plane.placement) (hstep : Session.Step respond x y) :
    P y.loop.plane.placement := by
  cases hstep with
  | answer | leave => exact h
  | turn ready =>
      rcases x.loop.plane_turn with ⟨heq, -⟩ | ⟨next, agenda, processed, heq, -⟩
      · exact heq ▸ h
      · rw [heq]
        exact hkept.dispatch { x.loop.plane with agenda } next.event h
  | take collecting there => exact hkept.apply _ _ h

/-- What is kept and holds at the start holds at every moment. -/
theorem moment (hkept : Kept P) (h : P s.placement) (hmoment : s.Moment s') : P s'.placement := by
  have hscheduled : ∀ events, P (s.scheduleAll events).placement := by
    intro events
    rw [Launch.scheduleAll_eq]
    exact h
  cases hmoment with
  | turned events turns => exact hkept.runFor (hscheduled events) turns
  | session events hreached =>
      induction hreached with
      | refl => exact hscheduled events
      | tail _ hstep ih => exact hkept.session ih hstep

end Kept

/-- Nothing happens to the placement at any moment that could not be asked of it from outside. -/
theorem kept_runsTo (p : Placement α) : Kept p.RunsTo where
  dispatch s event h := h.trans (handles_dispatch s event).runsTo
  apply s answer h := h.trans (runsTo_apply s answer)

theorem Moment.runsTo {s s' : Simulation α} (h : s.Moment s') : s.placement.RunsTo s'.placement :=
  (kept_runsTo s.placement).moment (.refl _) h

end Simulation

end StreamPlacement
