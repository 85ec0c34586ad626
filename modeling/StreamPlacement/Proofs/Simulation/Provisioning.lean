import StreamPlacement.Proofs.Placement.Bookings
import StreamPlacement.Proofs.Placement.Relief
import StreamPlacement.Proofs.Simulation.Launch

/-!
Runs in which nobody streams unbooked.

A viewer that is refused is in its group already, and has no stream there. Its group uses the full
link, so if the link is relieved within the same event the group is booked anew with all the others
on it, and nothing is missing any more when the event is over. Groups that are not on the link keep
what they have.
-/

namespace StreamPlacement

/-! ### Groups that lack one stream -/

/-- The group is booked in full but for its last viewer. -/
structure Group.LacksOne (group : Group) : Prop where
  idle : group.route.currentEdge? = none → group.Full
  next : ∀ e, group.route.currentEdge? = some e → (group.bookStream e).Full

theorem Group.Full.lacksOne_addViewer {group : Group} (h : group.Full) (viewer : Viewer) :
    (group.addViewer viewer).LacksOne := by
  have hbooking : (group.addViewer viewer).booking = group.booking := rfl
  have hroute : (group.addViewer viewer).route = group.route := rfl
  constructor
  case idle =>
    intro hfirst
    rw [Group.Full, hfirst, hbooking, h, ← hroute, hfirst]
    rfl
  case next =>
    intro e hfirst
    have hbooked : group.booking = some ⟨e, group.size⟩ := by
      rw [h, ← hroute, hfirst]
      rfl
    show some _ = ((group.addViewer viewer).route.currentEdge?).map _
    rw [hfirst, hbooking, hbooked]
    simp [Group.bookStream, Group.size, Group.addViewer]

theorem Group.lacksOne_of_free {group : Group} (hsize : group.size = 1)
    (hfree : group.booking = none) : group.LacksOne := by
  constructor
  case idle =>
    intro hfirst
    rw [Group.Full, hfirst, hfree]
    rfl
  case next =>
    intro e hfirst
    show some _ = (group.route.currentEdge?).map _
    rw [hfirst, hfree]
    simp [Group.bookStream, Group.size] at hsize ⊢
    exact hsize.symm

variable {α : Type} [Quantity α] {d : Deployment α}

namespace Placement

variable {p q : Placement α} {exempt : List GroupId} {e : Edge} {id : GroupId}

/-- The strategy is greedy, and all groups but some are booked in full. -/
structure Provisioned (d : Deployment α) (exempt : List GroupId) (p : Placement α) : Prop where
  coherent : Coherent d p
  greedy : p.strategy = .greedy
  full : ∀ {id group}, p.registry.group? id = some group → id ∉ exempt → group.Full

theorem provisioned_start (h : d.strategy = .greedy) : Provisioned d [] d.start where
  coherent := coherent_start d
  greedy := h
  full hgroup := by simp [Deployment.start, start, Registry.group?] at hgroup

/-- Neither servers nor counts matter. -/
theorem Provisioned.aside (h : Provisioned d exempt p) (servers : ServerPool) (tally : Tally) :
    Provisioned d exempt { p with servers, tally } where
  coherent := (h.coherent.change (.aside p servers p.strategy tally p.requests p.pending)).1
  greedy := h.greedy
  full := h.full

/-- A reaction books every group on the link in full, also those that were exempt. -/
theorem Provisioned.react (h : Provisioned d exempt p)
    (hexempt : exempt ⊆ p.registry.traversing e) :
    ∃ q reaction, p.react e = (q, .ok reaction) ∧ Provisioned d [] q := by
  obtain ⟨q, relocations, heq, hrelieved⟩ := h.coherent.relieve_ok e
  refine ⟨q, .relieved ⟨e, p.registry.traversing e, relocations⟩, ?_, hrelieved.coherent, ?_, ?_⟩
  · simp only [Placement.react, h.greedy, heq]
    rfl
  · rw [hrelieved.relocated.strategy_eq]
    exact h.greedy
  · -- Whoever is on the link is booked anew, and whoever is not was not exempt.
    intro id group hgroup _
    by_cases hid : id ∈ p.registry.traversing e
    · obtain ⟨group', hgroup', hfull⟩ := hrelieved.full h.coherent hid
      obtain rfl : group' = group := Option.some.inj (hgroup'.symm.trans hgroup)
      exact hfull
    · rw [hrelieved.others h.coherent hid] at hgroup
      exact h.full hgroup fun hmem => hid (hexempt hmem)

/-! ### Admission -/

theorem Provisioned.enroll (h : Provisioned d [] p) {accessPoint requested : NodeId}
    {content : ContentId} {user : UserId} {registry : Registry} {directory : Directory}
    (henroll : p.registry.enroll p.topology p.book p.directory accessPoint requested content user =
      .ok (id, registry, directory)) :
    Provisioned d [id] { p with registry, directory } ∧
      ∀ group, registry.group? id = some group → group.LacksOne := by
  have hcoherent := (h.coherent.change (h.coherent.enroll henroll).1).1
  obtain ⟨attachment, -, ⟨hfind, rfl, rfl⟩ | ⟨-, route, address, -, hid, rfl, -⟩⟩ :=
    Registry.enroll_cases henroll
  · obtain ⟨before, hbefore, -⟩ := h.coherent.group?_of_find? hfind
    refine ⟨⟨hcoherent, h.greedy, fun {id' group'} hgroup' hne => ?_⟩, fun group hgroup => ?_⟩
    · have hgroup' : (p.registry.modify id _).group? id' = some group' := hgroup'
      rw [Registry.group?_modify_of_ne (List.ne_of_not_mem_cons hne).symm] at hgroup'
      exact h.full hgroup' List.not_mem_nil
    · rw [Registry.group?_modify_self hbefore] at hgroup
      obtain rfl := Option.some.inj hgroup
      exact (h.full hbefore List.not_mem_nil).lacksOne_addViewer _
  · have hsize : id.index = p.registry.size := congrArg Id.index hid
    refine ⟨⟨hcoherent, h.greedy, fun {id' group'} hgroup' hne => ?_⟩, fun group hgroup => ?_⟩
    · have hgroup' : ({ p.registry with groups := p.registry.groups ++ [_] } : Registry).group? id'
          = some group' := hgroup'
      rw [Registry.group?_append, if_neg] at hgroup'
      · exact h.full hgroup' List.not_mem_nil
      · intro hindex
        exact List.ne_of_not_mem_cons hne (congrArg Id.mk (hindex.trans hsize.symm))
    · rw [Registry.group?_append, if_pos hsize] at hgroup
      obtain rfl := Option.some.inj hgroup
      exact Group.lacksOne_of_free rfl rfl

/-- After an admission all groups are booked in full, except for that of a viewer who was refused:
it uses the link that was full. -/
theorem Provisioned.admitViewer (h : Provisioned d [] p) {accessPoint requested : NodeId}
    {content : ContentId} {user : UserId} {admission : Admission}
    (harrive : p.admitViewer accessPoint requested content user = .ok (admission, q)) :
    match admission with
    | .accepted _ _ => Provisioned d [] q
    | .exceeded id e => Provisioned d [id] q ∧ id ∈ q.registry.traversing e := by
  obtain ⟨id, registry, directory, group, tally, henroll, hgroup, hcases⟩ :=
    h.coherent.admitViewer_cases harrive
  obtain ⟨hentered, hlacks⟩ := h.enroll henroll
  -- No group but that of the viewer lacks a stream.
  have hgroups : ∀ {id' group'}, registry.group? id' = some group' →
      (id' = id ∧ group' = group) ∨ id' ≠ id ∧ group'.Full := by
    intro id' group' hgroup'
    by_cases hid : id' = id
    · exact .inl ⟨hid, Option.some.inj (hgroup'.symm.trans (hid ▸ hgroup))⟩
    · exact .inr ⟨hid, hentered.full hgroup' (by simpa using hid)⟩
  rcases hcases with ⟨hfirst, rfl, rfl⟩ | ⟨e, hfirst, ⟨rfl, rfl⟩ | ⟨rfl, rfl⟩⟩
  · refine .aside (p := { p with registry, directory })
      ⟨hentered.coherent, hentered.greedy, fun hgroup' _ => ?_⟩ _ _
    rcases hgroups hgroup' with ⟨-, rfl⟩ | ⟨-, hfull⟩
    · exact (hlacks _ hgroup).idle hfirst
    · exact hfull
  · obtain ⟨-, -, group', -, hgroup', -, hspare⟩ := h.coherent.enroll henroll
    obtain rfl : group = group' := Option.some.inj (hgroup.symm.trans hgroup')
    let booked : Placement α := { p with
      topology := p.topology.allocate e
      registry := registry.modify id (·.bookStream e)
      directory }
    have hbooked : Coherent d booked :=
      (hentered.coherent.change (.stream hgroup hfirst hspare)).1
    refine .aside (p := booked) ⟨hbooked, hentered.greedy, fun {id' group'} hgroup' _ => ?_⟩ _ _
    obtain ⟨before, hbefore, rfl⟩ := Option.map_eq_some_iff.mp
      ((Registry.group?_modify registry id id' _).symm.trans hgroup')
    rcases hgroups hbefore with ⟨rfl, rfl⟩ | ⟨hne, hfull⟩
    · rw [if_pos rfl]
      exact (hlacks _ hgroup).next e hfirst
    · rw [if_neg (Ne.symm hne)]
      exact hfull
  · refine ⟨hentered.aside _ _, hentered.coherent.mem_traversing.mpr ⟨group, hgroup, ?_⟩⟩
    exact Route.traversesLink_iff.mpr (.inl (Route.mem_edges_of_currentEdge? hfirst))

/-! ### Congestion -/

theorem Provisioned.handle (h : Provisioned d [] p) (signals : List (Signal α)) :
    Provisioned d [] (Monitor.handle signals p).2 := by
  induction signals generalizing p with
  | nil => exact h
  | cons signal rest ih =>
      obtain ⟨q, reaction, heq, hq⟩ := h.react (e := signal.edge) (List.nil_subset _)
      simp only [Monitor.handle, heq]
      exact ih hq

end Placement

/-! ### Runs -/

namespace Simulation

variable {s s' : Simulation α}

/-- All groups are booked in full, whoever is refused has room made at once, and there is no
solver. -/
structure Provisioned (d : Deployment α) (s : Simulation α) : Prop where
  placement : s.placement.Provisioned d []
  provision : s.settings.provision = true
  worker : s.worker = none

theorem provisioned_arrive (h : s.Provisioned d) (user : UserId) (content : ContentId)
    (server : Option NodeId) :
    (s.arrive user content server).1.placement.Provisioned d [] := by
  unfold arrive
  split
  · exact h.placement
  · dsimp only
    split
    · exact h.placement
    · next heq => exact h.placement.admitViewer heq
    · next heq =>
        obtain ⟨hrefused, husing⟩ := h.placement.admitViewer heq
        obtain ⟨q, reaction, hreact, hq⟩ := hrefused.react (e := _)
          (List.cons_subset.mpr ⟨husing, List.nil_subset _⟩)
        rw [if_pos h.provision]
        simp only [hreact]
        exact hq.aside _ _

theorem provisioned_endInterval (h : s.Provisioned d) :
    s.endInterval.placement.Provisioned d [] := by
  obtain ⟨monitor, -, hmeasured⟩ := measured_eq s
  have hhandled : (s.measured.monitor.tick s.measured.placement).2.2.Provisioned d [] := by
    rw [hmeasured]
    exact h.placement.handle _
  have hreacted : s.measured.reacted.placement.Provisioned d [] := by
    unfold reacted
    dsimp only
    split
    · exact hhandled.aside _ _
    · exact hhandled
  rw [endInterval_eq]
  split <;> exact hreacted

/-- No event leaves a group with less than it needs, whatever comes of it. -/
theorem provisioned_dispatch (h : s.Provisioned d) (event : Event) :
    (s.dispatch event).1.Provisioned d := by
  have hhandled := handled_dispatch s event
  refine ⟨?_, ?_, hhandled.worker_eq.trans h.worker⟩
  · cases event with
    | arrival user content server => exact provisioned_arrive h user content server
    | traffic e bytes => exact h.placement
    | tick => exact provisioned_endInterval h
    | activation => exact h.placement.aside _ _
  · rw [hhandled.settings_eq]
    exact h.provision

theorem provisioned_step? (h : s.Provisioned d) {outcome : Except Fault Unit}
    (hstep : s.step? = some (s', outcome)) : s'.Provisioned d := by
  obtain ⟨next, agenda, -, -, ⟨fault, -, heq⟩ | ⟨handled, -, heq, rfl⟩⟩ := step?_eq_some hstep
  all_goals
    have hdispatch := provisioned_dispatch (s := { s with agenda })
      ⟨h.placement, h.provision, h.worker⟩ next.event
    rw [heq] at hdispatch
  · exact hdispatch
  · have hcounted : ({ handled with processed := handled.processed + 1 } :
        Simulation α).Provisioned d :=
      ⟨hdispatch.placement, hdispatch.provision, hdispatch.worker⟩
    rw [collect_of_no_worker hcounted.worker]
    exact hcounted

theorem Reaches.provisioned (h : s.Reaches s') (hs : s.Provisioned d) : s'.Provisioned d := by
  induction h with
  | refl => exact hs
  | tail _ hstep ih => exact provisioned_step? ih hstep

end Simulation

/-! ### Loads -/

theorem Group.Full.streamsOn_eq {group : Group} (h : group.Full) (e : Edge) :
    group.streamsOn e = if group.route.currentEdge? = some e then group.size else 0 := by
  rw [Group.Full] at h
  cases hfirst : group.route.currentEdge? with
  | none =>
      rw [hfirst] at h
      simp [Group.streamsOn_of_none h]
  | some first =>
      rw [hfirst] at h
      rw [Group.streamsOn_of_some h]
      simp

/-- Where all groups are booked in full, an edge has a stream for every viewer whose route starts on
it. -/
theorem Placement.Provisioned.streamsOn_eq {p : Placement α} (h : p.Provisioned d []) (e : Edge) :
    p.registry.streamsOn e =
      ((p.registry.groups.filter (·.route.edges.head? = some e)).map Group.size).sum := by
  have hstreams : ∀ group ∈ p.registry.groups, group.streamsOn e =
      if group.route.edges.head? = some e then group.size else 0 := by
    intro group hmem
    obtain ⟨id, hgroup⟩ := Registry.mem_groups_iff.mp hmem
    rw [← (h.coherent.served hgroup).currentEdge?_eq]
    exact (h.full hgroup List.not_mem_nil).streamsOn_eq e
  rw [Registry.streamsOn, List.map_congr_left hstreams, List.sum_map_ite]
  simp

theorem Launch.provisioned_start (l : Launch α) (hgreedy : l.deployment.strategy = .greedy)
    (hprovision : l.settings.provision = true) : l.start.Provisioned l.deployment := by
  refine ⟨?_, ?_, ?_⟩
  · rw [l.placement_start]
    exact Placement.provisioned_start hgreedy
  · rw [l.settings_start]
    exact hprovision
  · rw [l.worker_start]
    exact l.worker_of_greedy hgreedy

/-- With the greedy strategy, and room made for whoever is refused, nobody streams unbooked between
two events: the load of every pair of nodes is the demand of all viewers whose route starts there,
and a group with a route of a single node has no booking. -/
theorem Launch.booked_in_full (l : Launch Rat) (hunit : 0 < l.deployment.topology.unit)
    (hgreedy : l.deployment.strategy = .greedy) (hprovision : l.settings.provision = true)
    {s : Simulation Rat} (hreaches : l.start.Reaches s) :
    (∀ u v, s.placement.topology.load (u, v) = l.deployment.topology.unit *
      ((s.placement.registry.groups.filter fun group =>
        group.route.edges.head? = some (u, v)).map Group.size).sum) ∧
    ∀ group ∈ s.placement.registry.groups, group.route.hops.length = 1 →
      group.booking = none := by
  have hprovisioned := (hreaches.provisioned (l.provisioned_start hgreedy hprovision)).placement
  constructor
  · -- The run is one of operations, so loads agree with bookings, and bookings with viewers.
    intro u v
    obtain ⟨ops, hops⟩ := hreaches.runsTo
    rw [l.placement_start] at hops
    have hbalanced := (Placement.coherent_start l.deployment).balanced_changes hunit
      l.deployment.balanced_start (l.deployment.changes_after ops) (u, v)
    rw [show l.deployment.after ops = s.placement from hops.symm,
      hprovisioned.coherent.network.unit_eq, hprovisioned.streamsOn_eq] at hbalanced
    exact hbalanced
  · intro group hmem hsingle
    obtain ⟨id, hgroup⟩ := Registry.mem_groups_iff.mp hmem
    have hfull := hprovisioned.full hgroup List.not_mem_nil
    have hfirst : group.route.currentEdge? = none := by
      obtain ⟨node, hhops⟩ := List.length_eq_one_iff.mp hsingle
      rw [(hprovisioned.coherent.served hgroup).currentEdge?_eq, Route.edges, hhops]
      rfl
    rw [Group.Full, hfirst] at hfull
    exact hfull

/-! ### A small run -/

/-- Two viewers come to the line, whose first link has room for one of them. -/
def Launch.line : Launch Rat where
  deployment := { Deployment.line with strategy := .greedy }
  monitor := { settings := { interval := 1 } }
  worker := none
  worker_of_greedy _ := rfl
  settings := { origin := ⟨0⟩, stopTime := 1 }
  events := [⟨0, .arrival ⟨0⟩ ⟨7⟩ none⟩, ⟨0, .arrival ⟨1⟩ ⟨7⟩ none⟩]

/-- Once both have come, both are booked on the second link. -/
theorem Launch.booked_in_full_on_line :
    0 < Launch.line.deployment.topology.unit ∧ Launch.line.deployment.strategy = .greedy ∧
      Launch.line.settings.provision = true ∧
      Launch.line.start.Reaches Launch.line.start.turn.turn ∧
      Launch.line.start.turn.turn.placement.topology.load (⟨1⟩, ⟨2⟩) = 1 * (2 : Nat) ∧
      Launch.line.start.turn.turn.placement.topology.load (⟨0⟩, ⟨1⟩) = 1 * (0 : Nat) := by
  have hunit : 0 < Launch.line.deployment.topology.unit := by decide +kernel
  have hreaches : Launch.line.start.Reaches Launch.line.start.turn.turn :=
    (Simulation.reaches_turn _).trans (Simulation.reaches_turn _)
  obtain ⟨hload, -⟩ := Launch.booked_in_full Launch.line hunit rfl rfl hreaches
  refine ⟨hunit, rfl, rfl, hreaches, ?_, ?_⟩
  · rw [hload]
    have hviewers : ((Launch.line.start.turn.turn.placement.registry.groups.filter fun group =>
        group.route.edges.head? = some (⟨1⟩, ⟨2⟩)).map Group.size).sum = 2 := by decide +kernel
    rw [hviewers]
    rfl
  · rw [hload]
    have hviewers : ((Launch.line.start.turn.turn.placement.registry.groups.filter fun group =>
        group.route.edges.head? = some (⟨0⟩, ⟨1⟩)).map Group.size).sum = 0 := by decide +kernel
    rw [hviewers]
    rfl

end StreamPlacement
