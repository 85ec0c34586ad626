import StreamPlacement.Proofs.Placement.Relief
import StreamPlacement.Proofs.Placement.Servers
import StreamPlacement.Proofs.Simulation.Moments

/-!
Servers that are on.

A server is switched off in one place only: where relief chooses it. Relief of a coherent state does
not fail, so whoever asked for it is told that groups were re-homed, and switches the servers on
before the event is over. A reaction that is not relief leaves the servers alone, and an answer of
the solver makes servers known that are on from the start.
-/

namespace StreamPlacement

variable {α : Type} [Quantity α] {d : Deployment α}

namespace Placement

variable {p : Placement α}

theorem Coherent.runsTo (h : Coherent d p) {q : Placement α} (hruns : p.RunsTo q) :
    Coherent d q := by
  obtain ⟨ops, rfl⟩ := hruns
  exact (h.changes (h.changes_run ops)).1

/-- A reaction is relief, or it has not touched the servers. -/
theorem Coherent.react_cases (h : Coherent d p) (e : Edge) :
    (∃ relief, (p.react e).2 = .ok (.relieved relief)) ∨ (p.react e).1.servers = p.servers := by
  unfold react
  split
  · obtain ⟨q, relocations, heq, -⟩ := h.relieve_ok e
    rw [heq]
    exact .inl ⟨_, rfl⟩
  · split
    · exact .inr rfl
    · next hescalate => exact .inr (servers_of_escalate hescalate)

/-- Among the reactions there is relief, or the servers were not touched. -/
theorem Coherent.handle_cases (h : Coherent d p) (signals : List (Signal α)) :
    (∃ relief, .relieved relief ∈ (Monitor.handle signals p).1) ∨
      (Monitor.handle signals p).2.servers = p.servers := by
  induction signals generalizing p with
  | nil => exact .inr rfl
  | cons signal rest ih =>
      have hreactions : (Monitor.handle (signal :: rest) p).1 =
          (p.react signal.edge).2.toOption.toList ++
            (Monitor.handle rest (p.react signal.edge).1).1 := rfl
      rw [hreactions]
      rcases h.react_cases signal.edge with ⟨relief, hrelief⟩ | hsame
      · refine .inl ⟨relief, List.mem_append_left _ ?_⟩
        rw [hrelief]
        exact List.mem_singleton.mpr rfl
      · have hnext : Coherent d (p.react signal.edge).1 := h.runsTo (.single p (.react signal.edge))
        rcases ih hnext with ⟨relief, hrelief⟩ | hrest
        · exact .inl ⟨relief, List.mem_append_right _ hrelief⟩
        · exact .inr (hrest.trans hsame)

end Placement

namespace Simulation

variable {s : Simulation α}

omit [Quantity α] in
theorem allOn_activate (s : Simulation α) : s.activate.placement.servers.AllOn :=
  ServerPool.allOn_activate _

theorem allOn_arrive (h : s.placement.Coherent d) (hon : s.placement.servers.AllOn)
    (user : UserId) (content : ContentId) (server : Option NodeId) :
    (s.arrive user content server).1.placement.servers.AllOn := by
  unfold arrive
  split
  · exact hon
  · next attachment _ =>
      dsimp only
      split
      · exact hon
      · next harrive => exact Placement.servers_of_admitViewer harrive ▸ hon
      · next e placement harrive =>
          have hadmitted : placement.servers.AllOn :=
            Placement.servers_of_admitViewer harrive ▸ hon
          have hcoherent : placement.Coherent d := by
            have hnext := h.runsTo (.single s.placement (.arrive attachment.accessPoint
              (server.getD s.settings.origin) content user))
            simp only [Placement.perform, harrive] at hnext
            exact hnext
          split
          · rcases hcoherent.react_cases e with ⟨relief, hrelief⟩ | hsame
            · split
              · next hreact =>
                  rw [hreact] at hrelief
                  cases hrelief
              · exact allOn_activate _
            · split
              · next hreact =>
                  rw [hreact] at hsame
                  exact hsame ▸ hadmitted
              · exact allOn_activate _
          · exact hadmitted

theorem allOn_reacted (h : s.placement.Coherent d) (hon : s.placement.servers.AllOn) :
    s.reacted.placement.servers.AllOn := by
  unfold reacted
  dsimp only
  split
  · exact allOn_activate _
  · next hnone =>
      rcases h.handle_cases s.monitor.sample.1 with ⟨relief, hrelief⟩ | hsame
      · exact absurd (List.any_eq_true.mpr ⟨_, hrelief, rfl⟩) hnone
      · exact hsame ▸ hon

theorem allOn_endInterval (h : s.placement.Coherent d) (hon : s.placement.servers.AllOn) :
    s.endInterval.placement.servers.AllOn := by
  obtain ⟨monitor, -, hmeasured⟩ := measured_eq s
  have hreacted : s.measured.reacted.placement.servers.AllOn := by
    rw [hmeasured]
    exact allOn_reacted (s := { s with monitor }) h hon
  rw [endInterval_eq]
  split <;> exact hreacted

/-- Every event and every answer leaves all servers on. -/
theorem kept_allOn (d : Deployment α) :
    Kept fun p : Placement α => p.Coherent d ∧ p.servers.AllOn where
  dispatch s event h := by
    obtain ⟨hcoherent, hon⟩ := h
    refine ⟨hcoherent.runsTo (handles_dispatch s event).runsTo, ?_⟩
    cases event with
    | arrival user content server => exact allOn_arrive hcoherent hon user content server
    | traffic e bytes => exact hon
    | tick => exact allOn_endInterval hcoherent hon
    | activation => exact allOn_activate s
  apply s answer h := by
    obtain ⟨hcoherent, hon⟩ := h
    refine ⟨hcoherent.runsTo (runsTo_apply s answer), ?_⟩
    have hcompleted := Placement.lasting_allOn.complete hon answer
    unfold Simulation.apply
    dsimp only
    split
    · exact hcompleted
    · exact allOn_activate _

/-- All servers are on at every moment if they are at the start. -/
theorem Moment.allOn {s' : Simulation α} (h : s.placement.Coherent d)
    (hon : s.placement.servers.AllOn) (hmoment : s.Moment s') :
    s'.placement.Coherent d ∧ s'.placement.servers.AllOn :=
  (kept_allOn d).moment ⟨h, hon⟩ hmoment

end Simulation

end StreamPlacement
