import StreamPlacement.Proofs.Simulation.Conversation

/-!
The time that the solver takes.

Where the loop waits for every answer, a session is a run of the loop alone: whenever an answer is
awaited the loop goes on with the answer to the first request without one, and when none is awaited
the channel is empty. When the answer arrived shows nowhere. That no two schedules come apart then
needs no more than that the loop alone is deterministic.
-/

namespace StreamPlacement

open Relation (ReflTransGen)

variable {α : Type} [Quantity α]

/-- The solver responds to a request as `solve` says, in whatever time. -/
def Solver.Delivers (solve : Request → Reply) (request : Request) (reply : Reply) : Prop :=
  ∃ delay, reply = { solve request with delay }

variable {solve : Solver.Request → Solver.Reply}

/-! ### The loop alone -/

namespace Loop

/-- What the loop does next if all answers that it waits for are there. -/
def next? (solve : Solver.Request → Solver.Reply) (l : Loop α) : Option (Loop α) :=
  match l.phase with
  | .ready => some l.turn
  | .collecting _ last =>
    match l.exchange.requests[l.taken.length]? with
    | some request => some (l.receive ((solve request).answer l.taken.length))
    | none => some (l.leave last)
  | .ended _ => none

/-- The loop alone goes from one state to the other. -/
abbrev Follows (solve : Solver.Request → Solver.Reply) : Loop α → Loop α → Prop :=
  ReflTransGen fun l t => l.next? solve = some t

variable {l t : Loop α}

theorem next?_eq_none_iff : l.next? solve = none ↔ ∃ result, l.phase = .ended result := by
  unfold next?
  split
  · next hphase => simp [hphase]
  · next hphase =>
      simp only [hphase]
      split <;> simp
  · next hphase => simp [hphase]

/-- The loop alone has no choice. -/
theorem rightUnique_next (solve : Solver.Request → Solver.Reply) :
    Relator.RightUnique fun l t : Loop α => l.next? solve = some t :=
  fun _ _ _ h h' => Option.some.inj (h.symm.trans h')

theorem Follows.eq_of_over (h : l.Follows solve t) (hover : l.next? solve = none) : t = l := by
  rcases h.cases_head with rfl | ⟨m, hnext, -⟩
  · rfl
  · cases hover.symm.trans hnext

theorem handled_prefix_of_next (h : l.next? solve = some t) : l.handled <+: t.handled := by
  unfold next? at h
  split at h
  · obtain rfl := Option.some.inj h
    exact l.opens_turn.handled_prefix
  · split at h <;>
    · obtain rfl := Option.some.inj h
      exact List.prefix_rfl
  · cases h

theorem Follows.handled_prefix (h : l.Follows solve t) : l.handled <+: t.handled := by
  induction h with
  | refl => exact List.prefix_rfl
  | tail _ hnext ih => exact ih.trans (handled_prefix_of_next hnext)

/-- Once the end is reachable nothing else is. -/
theorem Follows.acc (h : l.Follows solve t) (hover : t.next? solve = none) :
    Acc (fun t l : Loop α => l.next? solve = some t) l := by
  induction h using ReflTransGen.head_induction_on with
  | refl =>
      refine Acc.intro _ fun m hnext => ?_
      cases hover.symm.trans hnext
  | head hnext _ ih =>
      refine Acc.intro _ fun m hnext' => ?_
      rw [rightUnique_next solve hnext' hnext]
      exact ih

end Loop

/-! ### Sessions of a blocking run -/

namespace Session

/-- The run is over. -/
def IsOver (x : Session α) : Prop := ∃ result, x.loop.phase = .ended result

/-- However the parties go on, they come to a stop. -/
def Terminates (respond : Solver.Request → Solver.Reply → Prop) (x : Session α) : Prop :=
  Acc (fun y x => Step respond x y) x

/-- The session is sound, and the loop waits for every answer. -/
structure Waiting (solve : Solver.Request → Solver.Reply) (x : Session α) : Prop where
  sound : x.Sound (Solver.Delivers solve)
  blocking : x.loop.plane.settings.blocking = true

variable {x y : Session α} {t : Loop α}

theorem Waiting.step (h : x.Waiting solve) (hstep : Step (Solver.Delivers solve) x y) :
    y.Waiting solve :=
  ⟨h.sound.step hstep, hstep.settings_eq ▸ h.blocking⟩

theorem Waiting.steps (h : x.Waiting solve)
    (hsteps : ReflTransGen (Step (Solver.Delivers solve)) x y) : y.Waiting solve := by
  induction hsteps with
  | refl => exact h
  | tail _ hstep ih => exact ih.step hstep

omit [Quantity α] in
theorem Sound.length_taken {respond : Solver.Request → Solver.Reply → Prop} (h : x.Sound respond) :
    x.loop.taken.length = x.loop.exchange.completed := by
  rw [h.taken_eq, List.length_range]

/-- A step of the solver does not touch the loop, and a step of the loop is the one that it takes
alone. -/
theorem Waiting.next_of_step (h : x.Waiting solve) (hstep : Step (Solver.Delivers solve) x y) :
    y.loop = x.loop ∧ y.answered = x.answered + 1 ∨ x.loop.next? solve = some y.loop := by
  cases hstep with
  | answer asked responds => exact .inl ⟨rfl, rfl⟩
  | turn ready =>
      right
      rw [Loop.next?, ready]
  | @take wait last answer rest collecting there =>
      right
      obtain ⟨hid, -, -⟩ := h.sound.next there
      obtain ⟨request, reply, hrequest, ⟨delay, rfl⟩, hanswer⟩ :=
        h.sound.answers answer (there ▸ List.mem_cons_self)
      have hnext : answer = (solve request).answer x.loop.taken.length := by
        rw [h.sound.length_taken, ← hid]
        exact hanswer
      rw [hid, ← h.sound.length_taken] at hrequest
      rw [Loop.next?, collecting]
      simp only [hrequest]
      rw [← hnext]
  | @leave wait last collecting nothing done =>
      right
      -- The loop waited, so that there are no more requests than answers.
      have hwait : wait = true := by
        rw [h.sound.waits wait last collecting, h.blocking, Bool.true_or]
      have hcompleted := h.sound.inOrder.pending_eq_nil_iff.mp (done hwait)
      have hnone : x.loop.exchange.requests[x.loop.taken.length]? = none := by
        rw [h.sound.length_taken, hcompleted, Array.getElem?_size]
      rw [Loop.next?, collecting]
      simp only [hnone]

theorem Waiting.follows (h : x.Waiting solve)
    (hsteps : ReflTransGen (Step (Solver.Delivers solve)) x y) :
    x.loop.Follows solve y.loop := by
  induction hsteps with
  | refl => exact .refl
  | tail hsteps hstep ih =>
      rcases (h.steps hsteps).next_of_step hstep with ⟨hsame, -⟩ | hnext
      · exact hsame ▸ ih
      · exact ih.tail hnext

omit [Quantity α] in
/-- The solver has fewer requests left to answer after each of its steps. -/
theorem Waiting.left_lt (h : y.Waiting solve) (hsame : y.loop = x.loop)
    (hmore : y.answered = x.answered + 1) :
    y.loop.exchange.requests.size - y.answered < x.loop.exchange.requests.size - x.answered := by
  have hle := h.sound.answered_le
  rw [hsame] at hle ⊢
  omega

/-- What the loop does alone it does in the session as soon as the solver has answered. -/
theorem Waiting.advance (h : x.Waiting solve) (hnext : x.loop.next? solve = some t) :
    ∃ y, ReflTransGen (Step (Solver.Delivers solve)) x y ∧ y.loop = t := by
  induction hleft : x.loop.exchange.requests.size - x.answered using Nat.strong_induction_on
    generalizing x with
  | h left ih =>
      have hrunning : ∀ result, x.loop.phase ≠ .ended result := fun result hover => by
        rw [Loop.next?_eq_none_iff.mpr ⟨result, hover⟩] at hnext
        cases hnext
      -- Some step can be made; if it is the solver's, then the loop can still make the same step.
      obtain ⟨y, hstep⟩ := h.sound.progress (fun request => ⟨_, 0, rfl⟩) hrunning
      rcases h.next_of_step hstep with ⟨hsame, hmore⟩ | hnext'
      · have hless := (h.step hstep).left_lt hsame hmore
        obtain ⟨z, hsteps, hz⟩ := ih _ (hleft ▸ hless) (h.step hstep) (hsame ▸ hnext) rfl
        exact ⟨z, .head hstep hsteps, hz⟩
      · exact ⟨y, .single hstep, Option.some.inj (hnext'.symm.trans hnext)⟩

theorem Waiting.catchUp (h : x.Waiting solve) (hfollows : x.loop.Follows solve t) :
    ∃ y, ReflTransGen (Step (Solver.Delivers solve)) x y ∧ y.loop = t := by
  induction hfollows with
  | refl => exact ⟨x, .refl, rfl⟩
  | tail _ hnext ih =>
      obtain ⟨y, hsteps, rfl⟩ := ih
      obtain ⟨z, hmore, hz⟩ := (h.steps hsteps).advance hnext
      exact ⟨z, hsteps.trans hmore, hz⟩

/-- If the loop alone comes to an end, then so does every session. -/
theorem Waiting.terminates (h : x.Waiting solve)
    (hacc : Acc (fun t l : Loop α => l.next? solve = some t) x.loop) :
    x.Terminates (Solver.Delivers solve) := by
  obtain ⟨l, hl⟩ : ∃ l, l = x.loop := ⟨_, rfl⟩
  rw [← hl] at hacc
  induction hacc generalizing x with
  | intro l _ ihLoop =>
      -- Between two steps of the loop the solver answers no more requests than there are.
      induction hleft : x.loop.exchange.requests.size - x.answered using Nat.strong_induction_on
        generalizing x with
      | h left ih =>
          refine Acc.intro _ fun y hstep => ?_
          rcases h.next_of_step hstep with ⟨hsame, hmore⟩ | hnext
          · have hless := (h.step hstep).left_lt hsame hmore
            exact ih _ (hleft ▸ hless) (h.step hstep) (hl.trans hsame.symm) rfl
          · exact ihLoop y.loop (hl ▸ hnext) (h.step hstep) rfl

end Session

namespace Launch

open Solver (Worker)

variable {l : Launch α} {x y : Session α}

theorem waiting_opening (hstrategy : l.deployment.strategy = .optimizer true)
    (hblocking : l.settings.blocking = true) : l.opening.Waiting solve where
  sound := sound_opening hstrategy
  blocking := by
    rw [← hblocking, ← l.settings_start]
    rfl

/-- The sessions of a worker that delivers are among those of the solver. -/
theorem CanReach.delivers {worker : Worker} (h : l.CanReach (Worker.Responds worker.solve) x)
    (hdelivers : ∀ id request, Solver.Delivers solve request (worker.solve id request)) :
    l.CanReach (Solver.Delivers solve) x := by
  refine ReflTransGen.mono (fun y z hstep => ?_) _ _ h
  cases hstep with
  | answer asked responds =>
      obtain ⟨id, rfl⟩ := responds
      exact .answer asked (hdelivers id _)
  | turn ready => exact .turn ready
  | take collecting there => exact .take collecting there
  | leave collecting nothing done => exact .leave collecting nothing done

/-- In a blocking run it does not show when the solver answers. Of two sessions with the same
launch, one has dispatched the events of the other and maybe more, in the same order; and if both
are over, then the loop has come to the same in both, with all of its state. If one session comes
to its end, then every other comes to the same end, however the parties go on. A run with a worker
that takes any time for its answers is no exception. -/
theorem timing_invisible (l : Launch α) (hstrategy : l.deployment.strategy = .optimizer true)
    (hblocking : l.settings.blocking = true) (solve : Solver.Request → Solver.Reply) :
    (∀ {x y : Session α}, l.CanReach (Solver.Delivers solve) x →
      l.CanReach (Solver.Delivers solve) y →
        (x.loop.handled <+: y.loop.handled ∨ y.loop.handled <+: x.loop.handled) ∧
        (x.IsOver → y.IsOver → x.loop = y.loop)) ∧
    (∀ {x y : Session α}, l.CanReach (Solver.Delivers solve) x → x.IsOver →
      l.CanReach (Solver.Delivers solve) y →
        y.Terminates (Solver.Delivers solve) ∧
        ∃ z, ReflTransGen (Session.Step (Solver.Delivers solve)) y z ∧ z.loop = x.loop) ∧
    ∀ {x : Session α}, l.CanReach (Solver.Delivers solve) x → ∀ result,
      x.loop.phase = .ended result → ∀ worker, l.worker = some worker →
        worker = { solve := worker.solve } →
        (∀ id request, Solver.Delivers solve request (worker.solve id request)) →
        l.start.run.2 ≠ .endless →
          l.start.run.2 = result ∧
            ∃ worker', l.start.run.1 = { x.loop.plane with worker := worker' } := by
  have hopening : l.opening.Waiting solve := waiting_opening hstrategy hblocking
  have htotal : ∀ {x y : Session α}, l.CanReach (Solver.Delivers solve) x →
      l.CanReach (Solver.Delivers solve) y →
        x.loop.Follows solve y.loop ∨ y.loop.Follows solve x.loop := fun hx hy =>
    ReflTransGen.total_of_right_unique (Loop.rightUnique_next solve) (hopening.follows hx)
      (hopening.follows hy)
  have hequal : ∀ {x y : Session α}, l.CanReach (Solver.Delivers solve) x →
      l.CanReach (Solver.Delivers solve) y → x.IsOver → y.IsOver → x.loop = y.loop := by
    intro x y hx hy hxover hyover
    rcases htotal hx hy with hfollows | hfollows
    · exact (hfollows.eq_of_over (Loop.next?_eq_none_iff.mpr hxover)).symm
    · exact hfollows.eq_of_over (Loop.next?_eq_none_iff.mpr hyover)
  refine ⟨fun hx hy => ⟨?_, hequal hx hy⟩, fun {x y} hx hover hy => ?_, ?_⟩
  · exact (htotal hx hy).imp Loop.Follows.handled_prefix Loop.Follows.handled_prefix
  · have hnone : x.loop.next? solve = none := Loop.next?_eq_none_iff.mpr hover
    have hfollows := (htotal hy hx).elim id fun hback => hback.eq_of_over hnone ▸ .refl
    have hwaiting := hopening.steps hy
    exact ⟨hwaiting.terminates (hfollows.acc hnone), hwaiting.catchUp hfollows⟩
  · intro x hx result hphase worker hworker hfresh hdelivers hends
    obtain ⟨y, hy, hend, worker', heq⟩ := l.session_of_run hstrategy hworker hfresh hends
    have hloop := hequal hx (hy.delivers hdelivers) ⟨result, hphase⟩ ⟨_, hend⟩
    rw [← hloop] at hend heq
    exact ⟨Phase.ended.inj (hend.symm.trans hphase), worker', heq⟩

/-- The run of the relay comes to an end, and so does every session with its solver. -/
theorem timing_invisible_on_relay :
    relay.deployment.strategy = .optimizer true ∧ relay.settings.blocking = true ∧
      ∃ x : Session Rat, relay.CanReach (Solver.Delivers relay.solve) x ∧ x.IsOver ∧
        relay.opening.Terminates (Solver.Delivers relay.solve) := by
  have hends : relay.start.run.2 ≠ .endless := by
    have hfinished : (match relay.start.run.2 with
        | .endless => false
        | _ => true) = true := by decide +kernel
    intro hendless
    rw [hendless] at hfinished
    cases hfinished
  obtain ⟨x, hreach, hend, -⟩ := relay.session_of_run rfl rfl rfl hends
  have hx : relay.CanReach (Solver.Delivers relay.solve) x := hreach.delivers fun _ _ => ⟨0, rfl⟩
  obtain ⟨-, hall, -⟩ := relay.timing_invisible rfl rfl relay.solve
  exact ⟨rfl, rfl, x, hx, ⟨_, hend⟩, (hall hx ⟨_, hend⟩ .refl).1⟩

end Launch

end StreamPlacement
