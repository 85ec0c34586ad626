import StreamPlacement.Proofs.Backhaul.Addressed
import StreamPlacement.Proofs.Cache.ServerPool
import StreamPlacement.Proofs.Placement.Operations
import StreamPlacement.Proofs.Placement.Partition

/-!
Moving groups that can be moved.

A node that is met on the route of a group has an address, and the rest of the route leads down from
it. So whoever is moved down its own route is moved without fail, and all of its streams are on the
first hop of what remains.
-/

namespace StreamPlacement

/-! ### Groups that are booked in full -/

/-- The group has one stream per viewer on the first hop of its route, and none without a hop. -/
def Group.Full (group : Group) : Prop :=
  group.booking = group.route.currentEdge?.map fun e => ⟨e, group.size⟩

/-- The group with its booking made anew. -/
def Group.inFull (group : Group) : Group :=
  { group with booking := group.route.currentEdge?.map fun e => ⟨e, group.size⟩ }

theorem Group.full_inFull (group : Group) : group.inFull.Full := rfl

theorem Group.Full.inFull_eq {group : Group} (h : group.Full) : group.inFull = group := by
  rw [Group.inFull, ← h]

variable {α : Type} [Quantity α] {d : Deployment α}

/-- The group can be served from `node`, over `edge` first. -/
def Deployment.Settles (d : Deployment α) (node : NodeId) (edge : Option Edge) (group : Group) :
    Prop :=
  ∃ address route, d.book.nodeAddress node = .ok address ∧
    d.topology.route node group.accessPoint = .ok route ∧ route.currentEdge? = edge

/-- Every hop of the route of a group has an address, and the rest of the route leads on from
there. -/
theorem Deployment.Serves.settles_hop {group : Group} (h : d.Serves group) {node : NodeId}
    {before rest : List NodeId} (hhops : group.route.hops = before ++ node :: rest) :
    d.Settles node (Route.ofHops (node :: rest)).currentEdge? group := by
  obtain ⟨address, haddress⟩ :=
    d.issued.nodeAddress_of_walk (u := node) h.walk ⟨_, h.addressed⟩ (by simp [hhops])
  exact ⟨address, _, haddress, d.wired.route_suffix h.routed hhops, rfl⟩

theorem Decision.Suits.settles {decision : Decision} {group : Group} (h : decision.Suits group)
    (hserves : d.Serves group) : d.Settles decision.node decision.reason.edge? group := by
  obtain ⟨before, rest, hhops, hedge⟩ := h.splits hserves
  exact hedge ▸ hserves.settles_hop hhops

namespace Placement

variable {p q r : Placement α} {id : GroupId} {node : NodeId}

/-! ### One group -/

theorem releaseBooking_eq (p : Placement α) (id : GroupId) :
    ∃ t : Topology α, t.SameNetwork p.topology ∧
      p.releaseBooking id =
        { p with topology := t, registry := p.registry.modify id ({ · with booking := none }) } := by
  have hregistry := registry_releaseBooking p id
  unfold Placement.releaseBooking at hregistry ⊢
  split
  · exact ⟨_, Topology.sameNetwork_release _ _ _, rfl⟩
  · next hnone =>
      rw [hnone] at hregistry
      exact ⟨p.topology, .refl _, by rw [← hregistry]⟩

theorem bookGroup_eq {group : Group} (hgroup : p.registry.group? id = some group)
    (edge : Option Edge) :
    ∃ t : Topology α, t.SameNetwork p.topology ∧
      p.bookGroup id edge =
        { p with
          topology := t
          registry := p.registry.modify id
            ({ · with booking := edge.map fun e => ⟨e, group.size⟩ }) } := by
  unfold Placement.bookGroup
  rw [hgroup]
  cases edge with
  | none => exact ⟨p.topology, .refl _, rfl⟩
  | some e => exact ⟨_, Topology.sameNetwork_allocateMany _ _ _, rfl⟩

theorem Coherent.redirect_eq (h : Coherent d p) {group : Group} {address : Address} {route : Route}
    (hgroup : p.registry.group? id = some group)
    (haddress : d.book.nodeAddress node = .ok address)
    (hroute : d.topology.route node group.accessPoint = .ok route) :
    p.redirect id node group.content =
      .ok ({ group := id, source := group.server, target := node, address,
             moved := group.server ≠ node }, p.redirected id group node address route) := by
  have hnode : p.book.nodeAddress node = .ok address := by rw [h.book_eq, haddress]
  have hway : p.topology.route node group.accessPoint = .ok route := by
    rw [h.network.route_eq d.wired, hroute]
  simp only [redirect, hnode, hgroup, hway, (h.served hgroup).withContent]
  rfl

/-- A group that settles at a node is moved there and booked in full; nothing else changes but the
directory, the loads and the count of moves. -/
theorem Coherent.rehome_eq (h : Coherent d p) {group : Group} {address : Address} {route : Route}
    (hgroup : p.registry.group? id = some group)
    (haddress : d.book.nodeAddress node = .ok address)
    (hroute : d.topology.route node group.accessPoint = .ok route) :
    ∃ t : Topology α,
      p.rehome id node (fun _ => route.currentEdge?) =
        ({ p with
            topology := t
            registry := p.registry.modify id fun group =>
              (group.servedFrom node address route).inFull
            directory := p.directory.insert group.key address
            tally := { p.tally with
              relocations := p.tally.relocations + if group.server ≠ node then 1 else 0 } },
          .ok { group := id, source := group.server, target := node, address,
                moved := group.server ≠ node }) := by
  obtain ⟨released, -, hreleased⟩ := releaseBooking_eq p id
  have hfree := group?_releaseBooking hgroup
  have hredirect := (h.releaseBooking id).1.redirect_eq hfree haddress hroute
  let moved := (p.releaseBooking id).redirected id { group with booking := none } node address route
  have hmoved : moved.registry.group? id =
      some ({ group with booking := none }.servedFrom node address route) :=
    Registry.group?_modify_self hfree _
  obtain ⟨t, -, hbook⟩ := bookGroup_eq hmoved route.currentEdge?
  have hregistry : moved.registry.modify id ({ · with
      booking := route.currentEdge?.map fun e => ⟨e, group.size⟩ }) =
        p.registry.modify id fun group => (group.servedFrom node address route).inFull := by
    -- The three changes to the group come down to one.
    show ((p.releaseBooking id).registry.modify id _).modify id _ = _
    rw [registry_releaseBooking, Registry.modify_modify, Registry.modify_modify]
    refine Registry.modify_congr fun group' hgroup' => ?_
    obtain rfl : group = group' := Option.some.inj (hgroup.symm.trans hgroup')
    rfl
  refine ⟨t, ?_⟩
  have hrehome : p.rehome id node (fun _ => route.currentEdge?) =
      (moved.bookGroup id route.currentEdge?,
        .ok { group := id, source := group.server, target := node, address,
              moved := group.server ≠ node }) := by
    simp only [rehome, hgroup]
    rw [hredirect]
  rw [hrehome, hbook]
  have hsize : ({ group with booking := none }.servedFrom node address route).size = group.size :=
    rfl
  rw [hsize, hregistry]
  simp only [moved, redirected, hreleased]

/-! ### Many groups -/

/-- Some groups were placed at nodes and booked in full, and all others are as they were. -/
structure Relocated (d : Deployment α) (p q : Placement α) (placed : List (GroupId × NodeId))
    (relocations : List Relocation) : Prop where
  reported : relocations.map (fun r => (r.group, r.target)) = placed
  told : ∀ r ∈ relocations, ∃ group, p.registry.group? r.group = some group ∧
    r.source = group.server ∧ r.moved = decide (group.server ≠ r.target)
  served : ∀ id node, (id, node) ∈ placed → ∃ group address route,
    p.registry.group? id = some group ∧ d.book.nodeAddress node = .ok address ∧
      d.topology.route node group.accessPoint = .ok route ∧
      q.registry.group? id = some (group.servedFrom node address route).inFull
  others : ∀ id, id ∉ placed.map Prod.fst → q.registry.group? id = p.registry.group? id
  tally_eq : q.tally =
    { p.tally with
      relocations := p.tally.relocations + relocations.countP Relocation.moved }
  strategy_eq : q.strategy = p.strategy
  requests_eq : q.requests = p.requests
  pending_eq : q.pending = p.pending

theorem Relocated.refl (d : Deployment α) (p : Placement α) : Relocated d p p [] [] where
  reported := rfl
  told := by simp
  served := by simp
  others _ _ := rfl
  tally_eq := rfl
  strategy_eq := rfl
  requests_eq := rfl
  pending_eq := rfl

/-- Placements of different groups add up. -/
theorem Relocated.append {placed more : List (GroupId × NodeId)}
    {relocations further : List Relocation} (h : Relocated d p q placed relocations)
    (h' : Relocated d q r more further)
    (hapart : ∀ id ∈ placed.map Prod.fst, id ∉ more.map Prod.fst) :
    Relocated d p r (placed ++ more) (relocations ++ further) := by
  have hbefore : ∀ id, id ∈ more.map Prod.fst →
      q.registry.group? id = p.registry.group? id := fun id hmore =>
    h.others id fun hplaced => hapart id hplaced hmore
  constructor
  case reported => rw [List.map_append, h.reported, h'.reported]
  case told =>
    intro r hr
    rcases List.mem_append.mp hr with hr | hr
    · exact h.told r hr
    · obtain ⟨group, hgroup, htold⟩ := h'.told r hr
      have hmem : r.group ∈ more.map Prod.fst := by
        rw [← h'.reported, List.map_map]
        exact List.mem_map_of_mem hr
      exact ⟨group, hbefore _ hmem ▸ hgroup, htold⟩
  case served =>
    intro id node hmem
    rcases List.mem_append.mp hmem with hmem | hmem
    · obtain ⟨group, address, route, hgroup, haddress, hroute, hnext⟩ := h.served id node hmem
      refine ⟨group, address, route, hgroup, haddress, hroute, ?_⟩
      rw [h'.others id (hapart id (List.mem_map_of_mem hmem)), hnext]
    · obtain ⟨group, address, route, hgroup, hrest⟩ := h'.served id node hmem
      have hmem' : id ∈ more.map Prod.fst := List.mem_map_of_mem hmem
      exact ⟨group, address, route, hbefore id hmem' ▸ hgroup, hrest⟩
  case others =>
    intro id hnot
    rw [List.map_append, List.mem_append, not_or] at hnot
    rw [h'.others id hnot.2, h.others id hnot.1]
  case tally_eq =>
    rw [h'.tally_eq, h.tally_eq, List.countP_append, Nat.add_assoc]
  case strategy_eq => rw [h'.strategy_eq, h.strategy_eq]
  case requests_eq => rw [h'.requests_eq, h.requests_eq]
  case pending_eq => rw [h'.pending_eq, h.pending_eq]

theorem Coherent.rehome_ok (h : Coherent d p) {group : Group} {edge : Option Edge}
    (hgroup : p.registry.group? id = some group) (hsettles : d.Settles node edge group) :
    ∃ q relocation, p.rehome id node (fun _ => edge) = (q, .ok relocation) ∧
      Relocated d p q [(id, node)] [relocation] ∧ q.servers = p.servers := by
  obtain ⟨address, route, haddress, hroute, rfl⟩ := hsettles
  obtain ⟨t, heq⟩ := h.rehome_eq hgroup haddress hroute
  refine ⟨_, _, heq, ?_, rfl⟩
  constructor
  case reported => rfl
  case told =>
    intro r hr
    obtain rfl := List.mem_singleton.mp hr
    exact ⟨group, hgroup, rfl, rfl⟩
  case served =>
    intro id' node' hmem
    obtain ⟨rfl, rfl⟩ := Prod.mk.inj (List.mem_singleton.mp hmem)
    exact ⟨group, address, route, hgroup, haddress, hroute, Registry.group?_modify_self hgroup _⟩
  case others =>
    intro id' hnot
    have hne : id ≠ id' := fun heq => hnot (by simp [heq])
    exact Registry.group?_modify_of_ne hne _
  case tally_eq =>
    by_cases hsame : group.server = node <;> simp [hsame]
  case strategy_eq => rfl
  case requests_eq => rfl
  case pending_eq => rfl

/-- Groups that settle at a node can all be moved there. -/
theorem Coherent.rehomeAll_ok (h : Coherent d p) {edge : Option Edge} {ids : List GroupId}
    (hnodup : ids.Nodup)
    (hsettles : ∀ id ∈ ids, ∃ group, p.registry.group? id = some group ∧
      d.Settles node edge group) :
    ∃ q relocations, rehomeAll node edge ids p = (q, .ok relocations) ∧
      Relocated d p q (ids.map (·, node)) relocations ∧ q.servers = p.servers := by
  induction ids generalizing p with
  | nil => exact ⟨p, [], rfl, .refl d p, rfl⟩
  | cons id rest ih =>
      obtain ⟨hid, hrest⟩ := List.nodup_cons.mp hnodup
      obtain ⟨group, hgroup, hsettle⟩ := hsettles id List.mem_cons_self
      obtain ⟨next, relocation, heq, hfirst, hservers⟩ := h.rehome_ok hgroup hsettle
      have hleads : ∀ id' ∈ [id], ∀ group', p.registry.group? id' = some group' →
          d.Leads node edge group' := by
        intro id' hid' group' hgroup' route hroute
        obtain rfl := List.mem_singleton.mp hid'
        obtain rfl : group = group' := Option.some.inj (hgroup.symm.trans hgroup')
        obtain ⟨_, route', _, hroute', hedge⟩ := hsettle
        obtain rfl : route = route' := Except.ok.inj (hroute.symm.trans hroute')
        exact hedge
      have hnext : Coherent d next := by
        have hchanges := (h.changes_rehomeAll (List.nodup_singleton id) hleads).1
        simp only [rehomeAll, heq] at hchanges
        exact (h.changes hchanges).1
      obtain ⟨q, relocations, hmore, hrelocated, hservers'⟩ := ih hnext hrest (by
        intro id' hmem
        have hne : id' ∉ ([(id, node)] : List (GroupId × NodeId)).map Prod.fst := by
          rintro hin
          obtain rfl := List.mem_singleton.mp hin
          exact hid hmem
        rw [hfirst.others id' hne]
        exact hsettles id' (List.mem_cons_of_mem _ hmem))
      refine ⟨q, relocation :: relocations, ?_, ?_, hservers'.trans hservers⟩
      · simp only [rehomeAll, heq, hmore]
        rfl
      · refine hfirst.append hrelocated fun id' hin hmem => ?_
        obtain rfl := List.mem_singleton.mp hin
        rw [List.map_map] at hmem
        exact hid (by simpa using hmem)

end Placement

end StreamPlacement
