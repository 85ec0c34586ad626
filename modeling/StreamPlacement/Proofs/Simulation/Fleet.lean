import StreamPlacement.Proofs.Cache.ServerPool
import StreamPlacement.Proofs.Simulation.Launch

/-!
The servers that a control plane is built with.

The origin comes first, and every declared server is put at its node in place of what is there. So
at a node that is declared there is the server of the last declaration, and elsewhere there is
nothing but the origin. All of them are on.
-/

namespace StreamPlacement

namespace Settings

variable {settings : Settings} {files : FileReader (StateM MemoryFiles)} {memory : MemoryFiles}
  {book : AddressBook} {pool pool' : ServerPool}

/-- The last declaration of a server at a node. -/
def entryAt? (settings : Settings) (node : NodeId) : Option ServerEntry :=
  (settings.servers.filter (·.node = node)).getLast?

theorem entryAt?_eq_none_iff {node : NodeId} :
    settings.entryAt? node = none ↔ ∀ entry ∈ settings.servers, entry.node ≠ node := by
  rw [entryAt?, List.getLast?_eq_none_iff, List.filter_eq_nil_iff]
  simp

/-- Declared servers are registered one after the other. -/
theorem registered_cases {entries : List ServerEntry}
    (h : entries.foldlM (fun pool entry => do
      let address ← book.nodeAddress entry.node
      pure (pool.register entry.node address (settings.capacityOf entry) entry.contents)) pool =
        (.ok pool' : Except Fault ServerPool)) :
    (pool.AllOn → pool'.AllOn) ∧
    ∀ node, pool'.hostingAt? node =
      match (entries.filter (·.node = node)).getLast? with
      | some entry => some (.upTo (settings.capacityOf entry))
      | none => pool.hostingAt? node := by
  induction entries generalizing pool with
  | nil =>
      obtain rfl := Except.ok.inj h
      exact ⟨id, fun node => rfl⟩
  | cons entry rest ih =>
      rw [List.foldlM_cons] at h
      cases haddress : book.nodeAddress entry.node with
      | error fault =>
          rw [haddress] at h
          cases h
      | ok address =>
          rw [haddress] at h
          obtain ⟨hon, hhosting⟩ := ih h
          refine ⟨fun hall => hon (hall.put rfl), fun node => ?_⟩
          rw [hhosting, ServerPool.register, ServerPool.hostingAt?_put]
          by_cases hnode : entry.node = node
          · rw [List.filter_cons_of_pos (by simpa using hnode), List.getLast?_cons]
            cases (rest.filter (·.node = node)).getLast? with
            | none => simp [hnode]
            | some last => rfl
          · rw [List.filter_cons_of_neg (by simpa using hnode), if_neg (Ne.symm hnode)]

/-- The origin has an address, and the pool holds what was declared last at each node, or else the
origin at its own. -/
theorem serverPool_cases (h : settings.serverPool book = .ok pool) :
    (∃ address, book.nodeAddress settings.origin = .ok address) ∧ pool.AllOn ∧
    ∀ node, pool.hostingAt? node =
      match settings.entryAt? node with
      | some entry => some (.upTo (settings.capacityOf entry))
      | none => if node = settings.origin then some .everything else none := by
  simp only [serverPool, bind, Except.bind] at h
  split at h
  · cases h
  · next address haddress =>
      obtain ⟨hon, hhosting⟩ := registered_cases h
      refine ⟨⟨address, haddress⟩, hon ?_, fun node => ?_⟩
      · have hempty : ServerPool.AllOn { defaultCapacity := settings.defaultCapacity } :=
          fun _ _ hserver => by cases hserver
        exact hempty.put rfl
      · rw [hhosting, ServerPool.registerOrigin, ServerPool.hostingAt?_put]
        rfl

/-- A control plane that is built has the origin on its topology, and the servers of its
settings. -/
theorem serverPool_of_build {sim : Simulation Float}
    (h : (memory.outcome (settings.build files)).1 = .ok sim) :
    sim.placement.topology.contains settings.origin = true ∧
      settings.serverPool sim.placement.book = .ok sim.placement.servers := by
  obtain ⟨t, memory', -, hbuild⟩ := MemoryFiles.of_outcome_bind h
  unfold buildOn at hbuild
  obtain ⟨p, _, hplacement, hbuild⟩ := MemoryFiles.of_outcome_bind hbuild
  obtain ⟨events, _, -, hbuild⟩ := MemoryFiles.of_outcome_bind hbuild
  obtain ⟨worker, _, -, hbuild⟩ := MemoryFiles.of_outcome_bind hbuild
  have hplacement : settings.placementOn t = .ok p := hplacement
  have hsim : sim.placement = p := by
    rw [← Except.ok.inj hbuild, Launch.scheduleAll_eq]
    rfl
  simp only [placementOn, bind, Except.bind, pure, Except.pure] at hplacement
  split at hplacement
  · cases hplacement
  · next book hbook =>
      split at hplacement
      · cases hplacement
      · next servers hservers =>
          obtain rfl := Except.ok.inj hplacement
          rw [hsim]
          simp only [bookOn, bind, Except.bind] at hbook
          split at hbook
          · next hcontains => exact ⟨hcontains, hservers⟩
          · cases hbook

end Settings

end StreamPlacement
