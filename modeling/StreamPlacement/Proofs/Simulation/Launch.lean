import StreamPlacement.Proofs.Files.Memory
import StreamPlacement.Proofs.Simulation.Turns
import StreamPlacement.Simulation.Setup

/-!
What a run starts from. Every control plane that is built from settings is such a start: its
placement is the first state of a deployment, and its agenda has the first tick and the workload.
-/

namespace StreamPlacement

/-- A control plane before its first event. The solver is there only where the strategy asks it. -/
structure Launch (α : Type) [Quantity α] where
  deployment : Deployment α
  monitor : Monitor α
  worker : Option Solver.Worker
  worker_of_greedy : deployment.strategy = .greedy → worker = none
  settings : RunSettings α
  events : List (TimedEvent α)

namespace Launch

variable {α : Type} [Quantity α]

/-- The state before the first event. -/
def start (l : Launch α) : Simulation α :=
  (Simulation.start l.deployment.start l.monitor l.worker l.settings).scheduleAll l.events

theorem scheduleAll_eq (s : Simulation α) (events : List (TimedEvent α)) :
    s.scheduleAll events = { s with agenda := (s.scheduleAll events).agenda } := by
  refine List.foldlRecOn (motive := fun t : Simulation α => t = { s with agenda := t.agenda }) _ _
    rfl fun t ht timed _ => ?_
  rw [Simulation.schedule, ht]

@[simp] theorem placement_start (l : Launch α) : l.start.placement = l.deployment.start :=
  congrArg Simulation.placement (scheduleAll_eq _ l.events)

@[simp] theorem worker_start (l : Launch α) : l.start.worker = l.worker :=
  congrArg Simulation.worker (scheduleAll_eq _ l.events)

@[simp] theorem settings_start (l : Launch α) : l.start.settings = l.settings :=
  congrArg Simulation.settings (scheduleAll_eq _ l.events)

@[simp] theorem monitor_start (l : Launch α) : l.start.monitor = l.monitor :=
  congrArg Simulation.monitor (scheduleAll_eq _ l.events)

end Launch

/-! ### Building a control plane -/

theorem Monitor.settings_registerAll {α : Type} [Quantity α] (m : Monitor α) (t : Topology α)
    (book : AddressBook) : (m.registerAll t book).settings = m.settings := by
  refine List.foldlRecOn (motive := fun later : Monitor α => later.settings = m.settings) _ _ rfl
    fun later hlater _ _ => hlater

namespace Settings

variable {settings : Settings} {files : FileReader (StateM MemoryFiles)} {memory : MemoryFiles}

theorem deployment_of_placementOn {collected t : Topology Float} {n : Nat}
    (hbuilt : collected.build n = .ok t) {p : Placement Float}
    (h : settings.placementOn t = .ok p) :
    ∃ d : Deployment Float, d.start = p ∧ d.topology = t ∧
      (d.strategy = .greedy ↔ settings.resolution = .greedy) := by
  simp only [placementOn, bind, Except.bind, pure, Except.pure] at h
  split at h
  · cases h
  · next book hbook =>
      split at h
      · cases h
      · next servers _ =>
          simp only [bookOn, bind, Except.bind] at hbook
          split at hbook
          · refine ⟨⟨collected, n, t, hbuilt, book, AddressBook.issued_of_populated _ hbook, servers,
              settings.grouping, _⟩, Except.ok.inj h, rfl, ?_⟩
            cases settings.resolution <;> simp
          · cases hbook

theorem built_of_topology {t : Topology Float}
    (h : (memory.outcome (settings.topology files)).1 = .ok t) :
    ∃ (collected : Topology Float) (n : Nat), collected.build n = .ok t ∧
      t.unit = settings.unit := by
  unfold topology Listing.readTopology at h
  obtain ⟨_, _, -, h⟩ := MemoryFiles.of_outcome_bind h
  obtain ⟨nodes, _, -, h⟩ := MemoryFiles.of_outcome_bind h
  obtain ⟨_, _, -, h⟩ := MemoryFiles.of_outcome_bind h
  obtain ⟨links, _, -, h⟩ := MemoryFiles.of_outcome_bind h
  have hbuilt : Listing.topology settings.unit nodes links = .ok t := h
  obtain ⟨-, -, rfl⟩ := Topology.build_eq_ok_iff.mp hbuilt
  exact ⟨_, _, hbuilt, rfl⟩

/-- Every control plane that is built from settings is the start of a run with their workload. -/
theorem launch_of_build_playing {s : Simulation Float}
    (h : (memory.outcome (settings.build files)).1 = .ok s) :
    ∃ l : Launch Float, l.start = s ∧ l.settings = settings.runSettings ∧
      l.monitor = ({ settings := settings.monitor } : Monitor Float).registerAll
        l.deployment.topology l.deployment.book ∧
      l.deployment.topology.unit = settings.unit ∧
      (l.deployment.strategy = .greedy ↔ settings.resolution = .greedy) ∧
      ∃ memory' : MemoryFiles,
        (memory'.outcome (settings.workload files l.deployment.book)).1 = .ok l.events := by
  obtain ⟨t, memory', htopology, hbuild⟩ := MemoryFiles.of_outcome_bind h
  obtain ⟨collected, n, hbuilt, hunit⟩ := built_of_topology htopology
  unfold buildOn at hbuild
  obtain ⟨p, _, hplacement, hbuild⟩ := MemoryFiles.of_outcome_bind hbuild
  obtain ⟨events, _, hevents, hbuild⟩ := MemoryFiles.of_outcome_bind hbuild
  obtain ⟨worker, _, hworker, hbuild⟩ := MemoryFiles.of_outcome_bind hbuild
  have hplacement : settings.placementOn t = .ok p := hplacement
  obtain ⟨d, rfl, rfl, hstrategy⟩ := deployment_of_placementOn hbuilt hplacement
  have hnone : d.strategy = .greedy → worker = none := by
    intro hgreedy
    unfold Settings.worker at hworker
    rw [hstrategy.mp hgreedy] at hworker
    exact (Except.ok.inj hworker).symm
  exact ⟨⟨d, _, worker, hnone, settings.runSettings, events⟩, Except.ok.inj hbuild, rfl, rfl, hunit,
    hstrategy, _, hevents⟩

theorem launch_of_build {s : Simulation Float}
    (h : (memory.outcome (settings.build files)).1 = .ok s) :
    ∃ l : Launch Float, l.start = s ∧ l.settings = settings.runSettings ∧
      l.monitor = ({ settings := settings.monitor } : Monitor Float).registerAll
        l.deployment.topology l.deployment.book ∧
      l.deployment.topology.unit = settings.unit ∧
      (l.deployment.strategy = .greedy ↔ settings.resolution = .greedy) := by
  obtain ⟨l, hstart, hsettings, hmonitor, hunit, hstrategy, -⟩ := launch_of_build_playing h
  exact ⟨l, hstart, hsettings, hmonitor, hunit, hstrategy⟩

/-- What is built from a configuration and the files that it names if it is accepted. -/
def launched (files : MemoryFiles) (configuration : Configuration) :
    Except Fault (Simulation Float) :=
  (ofConfiguration "" configuration).bind fun settings =>
    (files.outcome (settings.build MemoryFiles.current)).1

theorem built_of_launched {files : MemoryFiles} {configuration : Configuration}
    {sim : Simulation Float} (h : launched files configuration = .ok sim) :
    ∃ settings, ofConfiguration "" configuration = .ok settings ∧
      (files.outcome (settings.build MemoryFiles.current)).1 = .ok sim := by
  unfold launched Except.bind at h
  split at h
  · cases h
  · next settings haccepted => exact ⟨settings, haccepted, h⟩

end Settings

end StreamPlacement
