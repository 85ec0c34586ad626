import StreamPlacement.Proofs.Placement.Commands
import StreamPlacement.Proofs.Placement.Outcome
import StreamPlacement.Proofs.Placement.Servers

/-!
What servers hold in the course of a run.

What a server may host is settled when it is declared, or is the default for one that relief or an
answer of the solver has made known. It takes contents on as long as there is room, and gives none
back. A group is sent to a server by an answer only once its content is there; and what the group
wants then stays there, whatever else the answer asks for.
-/

namespace StreamPlacement

variable {α : Type} [Quantity α] {d : Deployment α}

namespace Placement

variable {p : Placement α} {P : ServerPool → Prop}

/-! ### Commands -/

theorem Enduring.obey (henduring : Enduring P) (h : P p.servers) (command : Command) :
    P (p.obey command).servers := by
  cases command with
  | operate op => exact henduring.perform h op
  | redirect id node content =>
      simp only [Placement.obey]
      split
      · next hredirect => exact servers_of_redirect hredirect ▸ h
      · exact h

theorem Enduring.obeyAll (henduring : Enduring P) (h : P p.servers) (commands : List Command) :
    P (p.obeyAll commands).servers :=
  List.foldlRecOn (motive := fun q : Placement α => P q.servers) commands Placement.obey h
    fun _ hq command _ => henduring.obey hq command

/-! ### Answers of the solver -/

/-- A group is moved only to a server that has its content then. -/
theorem hosts_assign {assignment : Solver.Assignment} {relocation : Relocation}
    (h : (p.assign assignment).2 = .ok relocation) :
    ∃ group, p.registry.group? relocation.group = some group ∧
      (p.assign assignment).1.servers.hosts relocation.target group.content = true := by
  obtain ⟨hgroup, htarget⟩ := relocation_of_assign h
  rcases p.assign_cases assignment with ⟨_, _, heq, -⟩ | ⟨group, _, _, ⟨hpresent, -⟩, htake, heq⟩
  · rw [heq] at h
    cases h
  · rw [hgroup, htarget, heq]
    refine ⟨group, hpresent, ?_⟩
    dsimp only
    rw [servers_rehome]
    exact ServerPool.hosts_take? htake

/-- After all assignments the content is there still. -/
theorem hosts_assignAll (completion : Completion) {assignments : List Solver.Assignment}
    {assignment : Solver.Assignment} {relocation : Relocation}
    (hmem : (assignment, .ok relocation) ∈ p.outcomes assignments) :
    ∃ group, p.registry.group? relocation.group = some group ∧
      (p.assignAll completion assignments).1.servers.hosts relocation.target group.content =
        true := by
  induction assignments generalizing p completion with
  | nil => cases hmem
  | cons first rest ih =>
      rw [assignAll_cons]
      rcases List.mem_cons.mp hmem with heq | hmem
      · obtain ⟨rfl, houtcome⟩ := Prod.mk.inj heq
        obtain ⟨group, hgroup, hhosts⟩ := hosts_assign houtcome.symm
        have hgrows := (enduring_grows _).assignAll (.refl (p.assign assignment).1.servers)
          (completion.add relocation) rest
        rw [← houtcome]
        exact ⟨group, hgroup, hgrows.hosts hhosts⟩
      · obtain ⟨group, hgroup, hhosts⟩ := ih _ hmem
        obtain ⟨before, hbefore, hprofile⟩ := Registry.group?_of_profiles
          (congrArg Frame.profiles (frame_assign p first)) hgroup
        have hcontent : before.content = group.content :=
          congrArg Group.Profile.content hprofile
        exact ⟨before, hbefore, hcontent ▸ hhosts⟩

/-- Where groups are sorted by content, an answer moves a group only to a server that has what all
of its viewers want. -/
theorem Filed.hosts_complete (h : Filed d p) (hgrouping : d.grouping = .byContent)
    (answer : Solver.Answer) {relocation : Relocation}
    (hmem : relocation ∈ (p.complete answer).2.applied) :
    ∃ group, (p.complete answer).1.registry.group? relocation.group = some group ∧
      ∀ viewer ∈ group.viewers,
        (p.complete answer).1.servers.hosts relocation.target viewer.content = true := by
  by_cases hpending : answer.request ∈ p.pending
  · obtain ⟨happlied, -⟩ := report_complete hpending
    rw [happlied] at hmem
    obtain ⟨⟨assignment, fault | moved⟩, houtcome, hmoved⟩ := List.mem_filterMap.mp hmem
    · cases hmoved
    · obtain rfl : moved = relocation := Option.some.inj hmoved
      obtain ⟨group, hgroup, hhosts⟩ := hosts_assignAll { request := answer.request } houtcome
      have hprofiles : p.registry.profiles = (p.complete answer).1.registry.profiles :=
        congrArg Roll.profiles (roll_complete p answer).symm
      obtain ⟨later, hlater, hprofile⟩ := Registry.group?_of_profiles hprofiles hgroup
      have hcontent : later.content = group.content := congrArg Group.Profile.content hprofile
      refine ⟨later, hlater, fun viewer hviewer => ?_⟩
      -- The content that the server was chosen for is the one that every viewer wants.
      rw [(h.complete answer).content_eq hgrouping hlater hviewer, hcontent,
        complete_of_pending hpending]
      exact hhosts
  · rw [complete_of_not_pending hpending] at hmem
    cases hmem

end Placement

namespace Deployment

/-- After any commands every server may host what it was declared for, or what is the default if it
was not declared; and it holds no more than that, or than it was declared with. Whatever comes
after, it may host the same, and what it holds it goes on holding. And where groups are sorted by
content, an answer of the solver moves a group only to a server that hosts what all of its viewers
want. -/
theorem hosting_afterAll (d : Deployment α) (commands : List Command) :
    let p := d.afterAll commands
    (∀ node server, p.servers.get? node = some server →
      server.hosting = (d.servers.hostingAt? node).getD (.upTo d.servers.defaultCapacity) ∧
      (∀ capacity, server.hosting = .upTo capacity →
        server.contents.size ≤ max capacity (d.servers.contentsAt node).size) ∧
      ∀ more, ∃ later, (p.obeyAll more).servers.get? node = some later ∧
        later.hosting = server.hosting ∧
        ∀ content, server.contents.contains content = true →
          later.contents.contains content = true) ∧
    (d.grouping = .byContent → ∀ answer, ∀ relocation ∈ (p.complete answer).2.applied,
      ∃ group, (p.complete answer).1.registry.group? relocation.group = some group ∧
        ∀ viewer ∈ group.viewers,
          (p.complete answer).1.servers.hosts relocation.target viewer.content = true) := by
  intro p
  have hwithin : d.servers.Within p.servers :=
    (Placement.enduring_within d.servers).obeyAll (p := d.start) (.refl _) commands
  constructor
  · intro node server hserver
    have hhosting : server.hosting = d.servers.allowance node := by
      rw [← hwithin.allowance_eq, ServerPool.allowance_eq hserver]
    refine ⟨hhosting, fun capacity hcapacity => ?_, fun more => ?_⟩
    · rw [← ServerPool.contentsAt_eq hserver]
      exact hwithin.size_le node capacity (hhosting.symm.trans hcapacity)
    · have hgrows := (Placement.enduring_grows p.servers).obeyAll (.refl _) more
      obtain ⟨later, hlater, hextends⟩ := hgrows node server hserver
      exact ⟨later, hlater, hextends.hosting_eq, hextends.contains⟩
  · intro hgrouping answer relocation hmem
    exact (d.filed_afterAll commands).hosts_complete hgrouping answer hmem

/-- A viewer is let in on the line, and the solver sends its group to the second server. -/
def line.answered : List Command := (line.asked ++ [Operation.complete line.detour]).map .operate

/-- The answer that moves the group on the line to the second server finds room for its content
there, and leaves none. -/
theorem hosting_on_line :
    let p := line.afterAll (line.asked.map .operate)
    let q := line.afterAll line.answered
    (∃ relocation ∈ (p.complete line.detour).2.applied, relocation.target = ⟨1⟩ ∧
      ∃ group, (p.complete line.detour).1.registry.group? relocation.group = some group ∧
        ∀ viewer ∈ group.viewers,
          (p.complete line.detour).1.servers.hosts ⟨1⟩ viewer.content = true) ∧
    ∃ server, q.servers.get? ⟨1⟩ = some server ∧ server.hosting = .upTo 1 ∧
      server.contents.size ≤ 1 := by
  intro p q
  constructor
  · obtain ⟨-, hanswers⟩ := hosting_afterAll line (line.asked.map .operate)
    obtain ⟨relocation, hmem, htarget⟩ : ∃ relocation ∈ (p.complete line.detour).2.applied,
        relocation.target = ⟨1⟩ := by decide +kernel
    obtain ⟨group, hgroup, hhosts⟩ := hanswers rfl line.detour relocation hmem
    exact ⟨relocation, hmem, htarget, group, hgroup, htarget ▸ hhosts⟩
  · obtain ⟨hservers, -⟩ := hosting_afterAll line line.answered
    obtain ⟨server, hserver⟩ : ∃ server, q.servers.get? ⟨1⟩ = some server :=
      Option.isSome_iff_exists.mp (by decide +kernel)
    obtain ⟨hhosting, hsize, -⟩ := hservers ⟨1⟩ server hserver
    have hupTo : server.hosting = .upTo 1 := hhosting.trans (by decide +kernel)
    have hstart : (line.servers.contentsAt ⟨1⟩).size = 0 := by decide +kernel
    have hle := hsize 1 hupTo
    rw [hstart] at hle
    exact ⟨server, hserver, hupTo, hle⟩

end Deployment

end StreamPlacement
