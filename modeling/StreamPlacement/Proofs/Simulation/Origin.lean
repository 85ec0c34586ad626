import StreamPlacement.Proofs.Placement.Skipping
import StreamPlacement.Proofs.Simulation.Fleet
import StreamPlacement.Proofs.Simulation.Switching

/-!
The origin in the course of a run.

What the origin may host is settled when the servers are declared, and never changes again. It hosts
everything unless a server is declared at its node; then it is a server like any other, with a
capacity, and an assignment to it is skipped where that is reached.
-/

namespace StreamPlacement

variable {α : Type} [Quantity α] {d : Deployment α}

/-! ### Points of a run -/

/-- The placement can come to this: after some operations, or in the midst of an answer that comes
after them. -/
inductive Placement.Point (p : Placement α) : Placement α → Prop
  | after (ops : List Operation) : Point p (p.run ops)
  | amidst (ops : List Operation) (answer : Solver.Answer) (before : List Solver.Assignment) :
    Point p ((p.run ops).midway answer before)

namespace Placement

variable {p q : Placement α} {id : GroupId} {group : Group} {node : NodeId}

theorem RunsTo.point (h : p.RunsTo q) : p.Point q := by
  obtain ⟨ops, rfl⟩ := h
  exact .after ops

theorem Coherent.point (h : Coherent d p) (hpoint : p.Point q) : Coherent d q := by
  cases hpoint with
  | after ops => exact h.runsTo ⟨ops, rfl⟩
  | amidst ops answer before => exact (h.runsTo ⟨ops, rfl⟩).midway answer before

theorem Point.keeps (hpoint : p.Point q) : p.servers.Keeps q.servers := by
  cases hpoint with
  | after ops => exact (grows_run p ops).keeps
  | amidst ops answer before =>
      have hgrows := (enduring_grows p.servers).assignAll (p := (p.run ops).awaited answer)
        (grows_run p ops) { request := answer.request } before
      exact hgrows.keeps

/-- An assignment of a group to a node with a known server is skipped for want of room exactly if
the server refuses the content. -/
theorem assign_noRoom_iff (hgroup : p.registry.group? id = some group)
    (hnode : p.topology.contains node = true) {address : Address}
    (haddress : p.book.nodeAddress node = .ok address) {hosting : Hosting}
    (hknown : p.servers.hostingAt? node = some hosting) :
    (p.assign ⟨id.index, node.index⟩).2 = .error .noRoom ↔
      p.servers.take? node group.content = none := by
  have hensure : p.servers.ensure node address = p.servers := by
    obtain ⟨server, hserver, -⟩ := Option.map_eq_some_iff.mp hknown
    rw [ServerPool.ensure, hserver]
  simp only [assign, hgroup, hnode, haddress, hensure]
  cases htake : p.servers.take? node group.content with
  | none => simp
  | some servers =>
      simp only [Bool.not_true, Bool.false_eq_true, if_false, reduceCtorEq, iff_false]
      cases ({ p with servers }.rehome id node _).2 <;> simp [Except.mapError]

end Placement

namespace Settings

/-- At every moment of a control plane that was built, and in the midst of every answer, the origin
hosts all contents exactly if no server is declared at its node. It refuses a content exactly if
there is such a declaration, the content is not on it, and the capacity of the last one is reached;
and for no other reason is an assignment of a registered group to the origin skipped for want of
room. -/
theorem origin_hosts {settings : Settings} {files : FileReader (StateM MemoryFiles)}
    {memory : MemoryFiles} {sim : Simulation Float}
    (hbuilt : (memory.outcome (settings.build files)).1 = .ok sim) :
    (∀ {s}, sim.Moment s → sim.placement.Point s.placement) ∧
    ∀ {p}, sim.placement.Point p →
      ((∀ content, p.servers.hosts settings.origin content = true) ↔
        ∀ entry ∈ settings.servers, entry.node ≠ settings.origin) ∧
      (∀ content, p.servers.take? settings.origin content = none ↔
        ∃ entry, settings.entryAt? settings.origin = some entry ∧
          p.servers.hosts settings.origin content = false ∧
          settings.capacityOf entry ≤ (p.servers.contentsAt settings.origin).size) ∧
      ∀ id group, p.registry.group? id = some group →
        ((p.assign ⟨id.index, settings.origin.index⟩).2 = .error .noRoom ↔
          p.servers.take? settings.origin group.content = none) := by
  obtain ⟨hcontains, hpool⟩ := serverPool_of_build hbuilt
  obtain ⟨⟨address, haddress⟩, -, hhosting⟩ := serverPool_cases hpool
  obtain ⟨l, rfl, -⟩ := launch_of_build hbuilt
  refine ⟨fun hmoment => hmoment.runsTo.point, fun {p} hpoint => ?_⟩
  rw [l.placement_start] at hcontains haddress hpoint hhosting
  have hcoherent := (Placement.coherent_start l.deployment).point hpoint
  have hkept : ∀ hosting, l.deployment.start.servers.hostingAt? settings.origin = some hosting →
      p.servers.hostingAt? settings.origin = some hosting := fun hosting =>
    hpoint.keeps settings.origin hosting
  rw [hhosting] at hkept
  have hassign : ∀ hosting, p.servers.hostingAt? settings.origin = some hosting → ∀ id group,
      p.registry.group? id = some group →
        ((p.assign ⟨id.index, settings.origin.index⟩).2 = .error .noRoom ↔
          p.servers.take? settings.origin group.content = none) := by
    intro hosting hknown id group hgroup
    have hbook : p.book.nodeAddress settings.origin = .ok address := by
      rw [hcoherent.book_eq]
      exact haddress
    refine Placement.assign_noRoom_iff hgroup ?_ hbook hknown
    rw [Topology.contains_iff, hcoherent.network.size_eq]
    exact Topology.contains_iff.mp hcontains
  rw [← entryAt?_eq_none_iff]
  cases hentry : settings.entryAt? settings.origin with
  | none =>
      rw [hentry] at hkept
      have hknown := hkept .everything (if_pos rfl)
      refine ⟨iff_of_true (ServerPool.hosts_of_everything hknown) rfl, ?_, hassign _ hknown⟩
      intro content
      rw [ServerPool.take?_eq_none_iff hknown]
      simp
  | some entry =>
      rw [hentry] at hkept
      have hknown := hkept _ rfl
      refine ⟨iff_of_false ?_ (by simp), ?_, hassign _ hknown⟩
      · intro hall
        obtain ⟨content, hlacking⟩ := ServerPool.exists_not_hosts hknown
        rw [hall content] at hlacking
        cases hlacking
      · intro content
        rw [ServerPool.take?_eq_none_iff hknown]
        simp

/-! ### An origin behind a small link -/

/-- The origin and another server in a line with an access point. The first link carries one stream,
and the solver always wants the first group at the origin. -/
def crowded.files : MemoryFiles :=
  .ofList [("nodes", "0 server\n1 server\n2 ap".toUTF8.toList),
    ("links", "0 1 5e6 0 0 1\n1 2 1e8 0 0 1".toUTF8.toList), ("answers", "0 0\n".toUTF8.toList)]

/-- Two viewers, the solver, and some servers. -/
def crowded.configuration (servers : List ServerEntry) : Configuration where
  topology := { nodes := "nodes", links := "links" }
  origin := ⟨0⟩
  resolution := { strategy := "optimizer", interpreter := "cat", script := some "answers" }
  clientsPerAccessPoint := 2
  servers
  monitor := { interval := 1 }
  stopTime := 1

/-- Both viewers have come, for the same content, and the solver was asked. -/
def crowded.rush (sim : Simulation Float) : Simulation Float :=
  ((sim.scheduleAll [⟨0, .arrival ⟨0⟩ ⟨7⟩ none⟩, ⟨0, .arrival ⟨1⟩ ⟨7⟩ none⟩]).runFor 2).1

/-- A control plane over the line with some servers. -/
def crowded.Built (servers : List ServerEntry) (settings : Settings) (sim : Simulation Float) :
    Prop :=
  ofConfiguration "" (configuration servers) = .ok settings ∧ settings.origin = ⟨0⟩ ∧
    settings.servers = servers ∧ (files.outcome (settings.build MemoryFiles.current)).1 = .ok sim

theorem crowded.exists_built (servers : List ServerEntry) (check : Simulation Float → Bool)
    (hplain : (ofConfiguration "" (configuration servers)).toOption.all (fun settings =>
      settings.origin = ⟨0⟩ ∧ settings.servers = servers) = true)
    (h : (launched files (configuration servers)).toOption.any check = true) :
    ∃ settings sim, Built servers settings sim ∧ check sim = true := by
  cases hsim : launched files (configuration servers) with
  | error fault =>
      rw [hsim] at h
      cases h
  | ok sim =>
      obtain ⟨settings, haccepted, hbuilt⟩ := built_of_launched hsim
      rw [haccepted] at hplain
      rw [hsim] at h
      obtain ⟨horigin, hservers⟩ := of_decide_eq_true hplain
      exact ⟨settings, sim, ⟨haccepted, horigin, hservers, hbuilt⟩, h⟩

/-- Without a declaration the group of the viewers can be assigned to the origin. -/
theorem origin_hosts_when_crowded :
    ∃ settings sim group, crowded.Built [] settings sim ∧ sim.Moment (crowded.rush sim) ∧
      (∀ content, (crowded.rush sim).placement.servers.hosts settings.origin content = true) ∧
      (crowded.rush sim).placement.registry.group? ⟨0⟩ = some group ∧
      ((crowded.rush sim).placement.assign ⟨0, settings.origin.index⟩).2 ≠ .error .noRoom := by
  obtain ⟨settings, sim, hsim, hgroup⟩ := crowded.exists_built []
    (fun sim => ((crowded.rush sim).placement.registry.group? ⟨0⟩).isSome)
    (by decide +kernel) (by decide +kernel)
  obtain ⟨-, -, hservers, hbuilt⟩ := id hsim
  obtain ⟨group, hgroup⟩ := Option.isSome_iff_exists.mp hgroup
  obtain ⟨hpoint, hall⟩ := origin_hosts hbuilt
  have hmoment : sim.Moment (crowded.rush sim) := .turned _ 2
  obtain ⟨hhosts, hrefuses, hassign⟩ := hall (hpoint hmoment)
  have hnone : ∀ entry ∈ settings.servers, entry.node ≠ settings.origin := by simp [hservers]
  refine ⟨settings, sim, group, hsim, hmoment, hhosts.mpr hnone, hgroup, fun hskip => ?_⟩
  obtain ⟨entry, hentry, -⟩ := (hrefuses group.content).mp ((hassign ⟨0⟩ group hgroup).mp hskip)
  rw [entryAt?_eq_none_iff.mpr hnone] at hentry
  cases hentry

/-- A server without room that is declared at the node of the origin takes its place: it hosts
nothing, and although a route leads from it to the group the assignment is skipped, also when the
solver makes it. -/
theorem origin_full_when_declared :
    ∃ settings sim, crowded.Built [⟨⟨0⟩, some 0, []⟩] settings sim ∧
      sim.placement.servers.hosts settings.origin ⟨7⟩ = false ∧
      sim.Moment (crowded.rush sim) ∧
      (crowded.rush sim).placement.tally.assignmentsSkipped = 1 ∧
      ∃ group, (crowded.rush sim).placement.registry.group? ⟨0⟩ = some group ∧
        ((crowded.rush sim).placement.topology.route settings.origin group.accessPoint).toBool ∧
        (crowded.rush sim).placement.servers.take? settings.origin group.content = none ∧
        ((crowded.rush sim).placement.assign ⟨0, settings.origin.index⟩).2 = .error .noRoom := by
  obtain ⟨settings, sim, hsim, hcheck⟩ := crowded.exists_built [⟨⟨0⟩, some 0, []⟩]
    (fun sim =>
      let p := (crowded.rush sim).placement
      sim.placement.servers.hosts ⟨0⟩ ⟨7⟩ = false ∧ p.tally.assignmentsSkipped = 1 ∧
        (p.registry.group? ⟨0⟩).any (fun group =>
          (p.topology.route ⟨0⟩ group.accessPoint).toBool ∧
            (p.servers.take? ⟨0⟩ group.content).isNone) ∧
        (p.assign ⟨0, 0⟩).2 = .error .noRoom)
    (by decide +kernel) (by decide +kernel)
  obtain ⟨-, horigin, -, -⟩ := id hsim
  obtain ⟨hlacking, hskipped, hgroup, hfull⟩ := of_decide_eq_true hcheck
  obtain ⟨group, hgroup, hrefused⟩ := Option.any_eq_true _ _ |>.mp hgroup
  obtain ⟨hroute, htake⟩ := of_decide_eq_true hrefused
  refine ⟨settings, sim, hsim, ?_⟩
  rw [horigin]
  exact ⟨hlacking, .turned _ 2, hskipped, group, hgroup, hroute, Option.isNone_iff_eq_none.mp htake,
    hfull⟩

end Settings

end StreamPlacement
