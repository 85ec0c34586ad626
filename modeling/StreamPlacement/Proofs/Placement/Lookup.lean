import StreamPlacement.Proofs.Placement.Operations

/-!
Where viewers are sent.

The server of a group is on record four times: as a node, as an address, as the start of the route,
and in the directory, which viewers reach through a key of their own. These records agree in every
state that a run reaches, so a viewer that was let in is sent to the server of its group.
-/

namespace StreamPlacement

variable {α : Type} [Quantity α] {d : Deployment α}

namespace Placement

variable {p : Placement α}

/-- Whoever is attached where a group has its key, and wants its content, is sent to its server. -/
theorem Coherent.serverFor?_eq (h : Coherent d p) {id : GroupId} {group : Group} {user : UserId}
    {content : ContentId} {attachment : Attachment}
    (hclient : d.book.client? user = some attachment) (hgroup : p.registry.group? id = some group)
    (hkey : group.key = d.grouping.keyFor attachment.broadcast content) :
    p.serverFor? user content = some group.serverAddress := by
  rw [serverFor?, h.book_eq, h.grouping_eq, hclient, Option.bind_some, ← hkey]
  exact h.listed hgroup

theorem Coherent.mem_keys_iff (h : Coherent d p) {key : GroupKey} :
    key ∈ p.directory.keys ↔ ∃ group ∈ p.registry.groups, group.key = key := by
  constructor
  · intro hkey
    obtain ⟨id, group, hgroup, heq⟩ := h.covered key hkey
    exact ⟨group, Registry.mem_groups_iff.mpr ⟨id, hgroup⟩, heq⟩
  · rintro ⟨group, hmem, rfl⟩
    obtain ⟨id, hgroup⟩ := Registry.mem_groups_iff.mp hmem
    exact OrderedMap.mem_keys_iff.mpr ⟨_, h.listed hgroup⟩

/-- A viewer that has been let in is sent to the server of its group from then on. -/
theorem Coherent.serverFor?_run (h : Coherent d p) {accessPoint requested : NodeId}
    {content : ContentId} {user : UserId} {admission : Admission} {next : Placement α}
    (harrive : p.admitViewer accessPoint requested content user = .ok (admission, next))
    (ops : List Operation) :
    ∃ group, (next.run ops).registry.group? admission.group = some group ∧
      (next.run ops).serverFor? user content = some group.serverAddress := by
  obtain ⟨hchanges, attachment, group, hclient, hgroup, hkey⟩ := h.admitViewer harrive
  have hnext := (h.changes hchanges).1
  obtain ⟨hlater, hkept⟩ := hnext.changes (hnext.changes_run ops)
  obtain ⟨group', hgroup', hkey'⟩ := hkept hgroup
  exact ⟨group', hgroup', hlater.serverFor?_eq hclient hgroup' (hkey'.trans hkey)⟩

end Placement

namespace Deployment

/-- After any run every group has the route from its server to its access point and the address of
its server, and the directory sends its key there; the directory has no other keys; and every viewer
that was let in along the way is sent to the server of the group that it was put into. -/
theorem lookup_after (d : Deployment α) (ops : List Operation) :
    (∀ group ∈ (d.after ops).registry.groups,
      (d.after ops).topology.route group.server group.accessPoint = .ok group.route ∧
        group.route.cursor = 0 ∧
        (d.after ops).book.nodeAddress group.server = .ok group.serverAddress ∧
        (d.after ops).directory.get? group.key = some group.serverAddress) ∧
    (∀ key, key ∈ (d.after ops).directory.keys ↔
      ∃ group ∈ (d.after ops).registry.groups, group.key = key) ∧
    ∀ before later accessPoint requested content user admission next,
      ops = before ++ .arrive accessPoint requested content user :: later →
      (d.after before).admitViewer accessPoint requested content user = .ok (admission, next) →
      ∃ group, (d.after ops).registry.group? admission.group = some group ∧
        (d.after ops).serverFor? user content = some group.serverAddress := by
  have hcoherent := d.coherent_after ops
  refine ⟨fun group hmem => ?_, fun key => hcoherent.mem_keys_iff, ?_⟩
  · obtain ⟨id, hgroup⟩ := Registry.mem_groups_iff.mp hmem
    have hserves := hcoherent.served hgroup
    obtain ⟨-, -, -, hcursor⟩ := d.wired.route_eq_ok_iff.mp hserves.routed
    refine ⟨?_, hcursor, ?_, hcoherent.listed hgroup⟩
    · rw [hcoherent.network.route_eq d.wired]
      exact hserves.routed
    · rw [hcoherent.book_eq]
      exact hserves.addressed
  · rintro before later accessPoint requested content user admission next rfl harrive
    have hafter : d.after (before ++ .arrive accessPoint requested content user :: later) =
        next.run later := by
      rw [after_append]
      simp only [Placement.run, List.foldl_cons, Placement.perform, harrive]
    rw [hafter]
    exact (d.coherent_after before).serverFor?_run harrive later

/-- The first viewer on the line is let in at the first server, and is sent to the second one once
the link between them has been relieved. -/
theorem lookup_on_line :
    ∃ group, (line.after line.rush).registry.group? ⟨0⟩ = some group ∧ group.server = ⟨1⟩ ∧
      (line.after line.rush).serverFor? ⟨0⟩ ⟨7⟩ = some group.serverAddress := by
  obtain ⟨-, -, hlookup⟩ := lookup_after line line.rush
  have hfirst : ((line.after []).admitViewer ⟨2⟩ ⟨0⟩ ⟨7⟩ ⟨0⟩).toOption.map Prod.fst =
      some (.accepted ⟨0⟩ (some (⟨0⟩, ⟨1⟩))) := by decide +kernel
  have hserver : ((line.after line.rush).registry.group? ⟨0⟩).map Group.server = some ⟨1⟩ := by
    decide +kernel
  cases harrive : (line.after []).admitViewer ⟨2⟩ ⟨0⟩ ⟨7⟩ ⟨0⟩ with
  | error fault =>
      rw [harrive] at hfirst
      cases hfirst
  | ok result =>
      obtain ⟨admission, next⟩ := result
      rw [harrive] at hfirst
      obtain rfl : admission = .accepted ⟨0⟩ (some (⟨0⟩, ⟨1⟩)) := Option.some.inj hfirst
      obtain ⟨group, hgroup, hsent⟩ := hlookup [] _ ⟨2⟩ ⟨0⟩ ⟨7⟩ ⟨0⟩ _ next rfl harrive
      have hgroup' : (line.after line.rush).registry.group? ⟨0⟩ = some group := hgroup
      rw [hgroup'] at hserver
      exact ⟨group, hgroup', Option.some.inj hserver, hsent⟩

end Deployment

end StreamPlacement
