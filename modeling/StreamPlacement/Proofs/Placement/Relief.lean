import StreamPlacement.Proofs.Placement.Relocation

/-!
What becomes of the groups on a link that is relieved.

A plan chooses nodes from the routes of the groups themselves, and each group once. So no step of
carrying it out can fail, and every group that used the link ends up with all of its streams on the
first hop of its new route.
-/

namespace StreamPlacement

/-- The groups of a decision, each with the node that it is placed at. -/
def Decision.places (decision : Decision) : List (GroupId × NodeId) :=
  decision.groups.map (·, decision.node)

theorem Decision.mem_places {decision : Decision} {id : GroupId} {node : NodeId} :
    (id, node) ∈ decision.places ↔ id ∈ decision.groups ∧ decision.node = node := by
  simp [places]

@[simp] theorem Decision.map_fst_places (decision : Decision) :
    decision.places.map Prod.fst = decision.groups := by
  simp [places, Function.comp_def]

@[simp] theorem map_fst_flatMap_places (decisions : List Decision) :
    (decisions.flatMap Decision.places).map Prod.fst = decisions.flatMap Decision.groups := by
  simp [List.map_flatMap]

variable {α : Type} [Quantity α] {d : Deployment α}

/-! ### Routes of groups that are served -/

/-- Only a group that is served at its own access point has no hop to book. -/
theorem Deployment.Serves.server_eq {group : Group} (h : d.Serves group)
    (hfirst : group.route.currentEdge? = none) : group.server = group.accessPoint := by
  have hroute : group.route = .ofHops group.route.hops := congrArg (Route.mk _) h.cursor_eq
  exact h.walk.eq_of_no_edge (hroute ▸ hfirst)

/-- A group that does not use a link has nothing booked on it. -/
theorem Deployment.Serves.forget_eq {group : Group} (h : d.Serves group) {e : Edge}
    (hnot : group.route.traversesLink e = false) : Registry.forget e group = group := by
  unfold Registry.forget
  split
  · next hbooked =>
      obtain ⟨booking, hbooking, rfl⟩ := Option.map_eq_some_iff.mp hbooked
      have hmem := Route.mem_edges_of_currentEdge? (h.booked booking hbooking).1
      have htraverses : group.route.traversesLink booking.edge = true :=
        Route.traversesLink_iff.mpr (.inl hmem)
      rw [hnot] at htraverses
      cases htraverses
  · rfl

/-- What a group had booked before it was placed anew makes no difference. -/
theorem Group.inFull_servedFrom_forget (e : Edge) (group : Group) (node : NodeId)
    (address : Address) (route : Route) :
    ((Registry.forget e group).servedFrom node address route).inFull =
      (group.servedFrom node address route).inFull := by
  unfold Registry.forget
  split <;> rfl

namespace Placement

variable {p q : Placement α} {e : Edge} {id : GroupId} {candidates : List GroupId}
  {relocations : List Relocation}

/-! ### The groups on a link -/

theorem group?_clearEdge (p : Placement α) (e : Edge) (id : GroupId) :
    (p.clearEdge e).registry.group? id = (p.registry.group? id).map (Registry.forget e) :=
  Registry.group?_clearBookings p.registry e id

/-- The numbers of the groups of some kind. -/
theorem Coherent.mem_map_id (h : Coherent d p) {keep : Group → Bool} :
    id ∈ (p.registry.groups.filter keep).map Group.id ↔
      ∃ group, p.registry.group? id = some group ∧ keep group = true := by
  simp only [List.mem_map, List.mem_filter, Registry.mem_groups_iff]
  constructor
  · rintro ⟨group, ⟨⟨id', hgroup⟩, hkeep⟩, rfl⟩
    exact ⟨group, by rw [h.numbered hgroup, hgroup], hkeep⟩
  · rintro ⟨group, hgroup, hkeep⟩
    exact ⟨group, ⟨⟨id, hgroup⟩, hkeep⟩, h.numbered hgroup⟩

theorem Coherent.ascending_map_id (h : Coherent d p) (keep : Group → Bool) :
    ((p.registry.groups.filter keep).map Group.id).Pairwise fun a b => a.index < b.index := by
  refine List.pairwise_map.mpr (.filter _ (List.pairwise_iff_getElem.mpr ?_))
  intro i j hi hj hlt
  have hnumber : ∀ k (hk : k < p.registry.groups.length), (p.registry.groups[k]).id = ⟨k⟩ := by
    intro k hk
    have hgroup : p.registry.group? ⟨k⟩ = some p.registry.groups[k] := List.getElem?_eq_getElem hk
    exact h.numbered hgroup
  rw [hnumber i hi, hnumber j hj]
  exact hlt

theorem Coherent.nodup_map_id (h : Coherent d p) (keep : Group → Bool) :
    ((p.registry.groups.filter keep).map Group.id).Nodup :=
  (h.ascending_map_id keep).imp fun hlt heq => absurd (congrArg Id.index heq) (Nat.ne_of_lt hlt)

theorem Coherent.mem_traversing (h : Coherent d p) :
    id ∈ p.registry.traversing e ↔
      ∃ group, p.registry.group? id = some group ∧ group.route.traversesLink e = true :=
  h.mem_map_id

theorem Coherent.ascending_traversing (h : Coherent d p) (e : Edge) :
    (p.registry.traversing e).Pairwise fun a b => a.index < b.index :=
  h.ascending_map_id _

theorem Coherent.placeable (h : Coherent d p) {group : Group}
    (hgroup : p.registry.group? id = some group) : Plan.Placeable p.registry.groups id := by
  have hserves := h.served hgroup
  obtain ⟨rest, hhops⟩ := hserves.walk.cons_eq
  exact ⟨group, hgroup, by rw [hserves.ahead_eq, hhops]; exact List.cons_ne_nil _ _⟩

/-! ### Carrying out a plan -/

theorem Coherent.carryOut_ok (h : Coherent d p) {decision : Decision}
    (hnodup : decision.groups.Nodup) (hne : decision.groups ≠ [])
    (hsuits : ∀ id ∈ decision.groups, ∃ group, p.registry.group? id = some group ∧
      decision.Suits group) :
    ∃ q relocations, p.carryOut decision = (q, .ok relocations) ∧ Coherent d q ∧
      Relocated d p q decision.places relocations ∧
      ∃ address, q.servers = (p.servers.warm decision.node address).2 := by
  have hsuit : ∀ id ∈ decision.groups, ∀ group, p.registry.group? id = some group →
      decision.Suits group := by
    intro id hid group hgroup
    obtain ⟨group', hgroup', hsuit⟩ := hsuits id hid
    obtain rfl : group' = group := Option.some.inj (hgroup'.symm.trans hgroup)
    exact hsuit
  obtain ⟨moved, relocations, heq, hrelocated, hservers⟩ :=
    h.rehomeAll_ok hnodup fun id hid => by
      obtain ⟨group, hgroup, hsuit⟩ := hsuits id hid
      exact ⟨group, hgroup, hsuit.settles (h.served hgroup)⟩
  have hchanges := (h.changes_carryOut hnodup hsuit).1
  -- The node of the decision has been routed to, so its address is known.
  obtain ⟨first, hfirst⟩ := List.exists_mem_of_ne_nil _ hne
  obtain ⟨_, address, _, -, haddress, -⟩ :=
    hrelocated.served first decision.node (List.mem_map_of_mem hfirst)
  have hbook : moved.book.nodeAddress decision.node = .ok address := by
    have hcoherent := (h.changes (h.changes_rehomeAll hnodup fun id hid group hgroup =>
      (hsuit id hid group hgroup).leads (h.served hgroup)).1).1
    rw [heq] at hcoherent
    rw [hcoherent.book_eq, haddress]
  have hcarried : p.carryOut decision =
      ({ moved with servers := (moved.servers.warm decision.node address).2 },
        .ok relocations) := by
    simp only [carryOut, heq, hbook]
  rw [hcarried] at hchanges
  refine ⟨_, relocations, hcarried, (h.changes hchanges).1, ?_, address, ?_⟩
  · exact ⟨hrelocated.reported, hrelocated.told, hrelocated.served, hrelocated.others,
      hrelocated.tally_eq, hrelocated.strategy_eq, hrelocated.requests_eq, hrelocated.pending_eq⟩
  · rw [← hservers]

/-- Decisions that suit their groups, and share none of them, can all be carried out. -/
theorem Coherent.carryOutAll_ok (h : Coherent d p) {decisions : List Decision}
    (hnodup : (decisions.flatMap Decision.groups).Nodup)
    (hne : ∀ decision ∈ decisions, decision.groups ≠ [])
    (hsuits : ∀ decision ∈ decisions, ∀ id ∈ decision.groups, ∃ group,
      p.registry.group? id = some group ∧ decision.Suits group) :
    ∃ q relocations, carryOutAll decisions p = (q, .ok relocations) ∧ Coherent d q ∧
      Relocated d p q (decisions.flatMap Decision.places) relocations ∧
      p.servers.Warmed q.servers (decisions.map Decision.node) := by
  induction decisions generalizing p with
  | nil => exact ⟨p, [], rfl, h, .refl d p, .refl _⟩
  | cons decision rest ih =>
      rw [List.flatMap_cons, List.nodup_append] at hnodup
      obtain ⟨hfirstNodup, hrestNodup, hapart⟩ := hnodup
      obtain ⟨next, relocations, heq, hnext, hrelocated, address, hservers⟩ :=
        h.carryOut_ok hfirstNodup (hne _ List.mem_cons_self) (hsuits _ List.mem_cons_self)
      have hplaces : ∀ id ∈ decision.places.map Prod.fst,
          id ∉ (rest.flatMap Decision.places).map Prod.fst := by
        rw [Decision.map_fst_places, map_fst_flatMap_places]
        exact fun id hin hlater => hapart id hin id hlater rfl
      obtain ⟨q, further, heq', hcoherent, hrelocated', hwarmed⟩ := ih hnext hrestNodup
        (fun later hlater => hne later (List.mem_cons_of_mem _ hlater)) fun later hlater id hid => by
          -- The groups of later decisions are still as the plan has seen them.
          have hnot : id ∉ decision.places.map Prod.fst := fun hin => hplaces id hin <| by
            rw [map_fst_flatMap_places]
            exact List.mem_flatMap.mpr ⟨later, hlater, hid⟩
          rw [hrelocated.others id hnot]
          exact hsuits later (List.mem_cons_of_mem _ hlater) id hid
      refine ⟨q, relocations ++ further, ?_, hcoherent, hrelocated.append hrelocated' hplaces,
        .warm_cons (hservers ▸ hwarmed)⟩
      simp only [carryOutAll, heq, heq']
      rfl

/-- Whichever groups shall be placed anew, the plan for them can be carried out. -/
theorem Coherent.reallocate_ok (h : Coherent d p) (candidates : List GroupId) :
    ∃ q relocations, p.reallocate candidates = (q, .ok relocations) ∧ Coherent d q ∧
      Relocated d p q
        ((plan p.topology p.registry.groups candidates).flatMap Decision.places) relocations ∧
      p.servers.Warmed q.servers
        ((plan p.topology p.registry.groups candidates).map Decision.node) := by
  obtain ⟨hsound, hnodup⟩ := sound_plan p.topology p.registry.groups candidates
  exact h.carryOutAll_ok hnodup (fun _ => ne_nil_of_mem_plan)
    fun decision hdecision => (hsound decision hdecision).suits

/-! ### A link is relieved -/

/-- What is decided when the link between the ends of `e` is relieved. -/
def reliefPlan (p : Placement α) (e : Edge) : List Decision :=
  plan (p.clearEdge e).topology (p.clearEdge e).registry.groups (p.registry.traversing e)

/-- The link between the ends of `e` was relieved by plan. -/
structure Relieved (d : Deployment α) (p q : Placement α) (e : Edge)
    (relocations : List Relocation) : Prop where
  coherent : Coherent d q
  relocated : Relocated d (p.clearEdge e) q ((p.reliefPlan e).flatMap Decision.places) relocations
  warmed : p.servers.Warmed q.servers ((p.reliefPlan e).map Decision.node)

theorem Coherent.relieve_ok (h : Coherent d p) (e : Edge) :
    ∃ q relocations,
      p.relieve e = (q, .ok { edge := e, candidates := p.registry.traversing e, relocations }) ∧
        Relieved d p q e relocations := by
  obtain ⟨q, relocations, heq, hcoherent, hrelocated, hwarmed⟩ :=
    (h.clearEdge e).1.reallocate_ok (p.registry.traversing e)
  refine ⟨q, relocations, ?_, hcoherent, hrelocated, hwarmed⟩
  simp only [relieve]
  rw [show (p.clearEdge e).registry.traversing e = p.registry.traversing e from
    Registry.traversing_clearBookings p.registry e e]
  rw [heq]
  rfl

/-- The decisions place just the groups that use the link. -/
theorem Coherent.groups_reliefPlan_perm (h : Coherent d p) (e : Edge) :
    ((p.reliefPlan e).flatMap Decision.groups).Perm (p.registry.traversing e) := by
  refine groups_plan_perm (h.nodup_map_id _) fun id hid => ?_
  obtain ⟨group, hgroup, -⟩ := h.mem_traversing.mp hid
  exact (h.clearEdge e).1.placeable (by
    rw [group?_clearEdge, hgroup]
    rfl)

/-- What the plan saw of a group that it decided on. -/
theorem suits_of_mem_reliefPlan {decision : Decision}
    (hdecision : decision ∈ p.reliefPlan e) (hid : id ∈ decision.groups) :
    ∃ group, p.registry.group? id = some group ∧ decision.Suits group := by
  obtain ⟨cleared, hcleared, hsuits⟩ := ((sound_plan _ _ _).1 decision hdecision).suits id hid
  obtain ⟨group, hgroup, rfl⟩ := Option.map_eq_some_iff.mp
    ((group?_clearEdge p e id).symm.trans hcleared)
  rw [Decision.Suits, Registry.route_forget] at hsuits
  exact ⟨group, hgroup, hsuits⟩

theorem Relieved.others (hrelieved : Relieved d p q e relocations) (h : Coherent d p)
    (hid : id ∉ p.registry.traversing e) : q.registry.group? id = p.registry.group? id := by
  have hnot : id ∉ ((p.reliefPlan e).flatMap Decision.places).map Prod.fst := by
    rw [map_fst_flatMap_places]
    exact fun hmem => hid ((h.groups_reliefPlan_perm e).mem_iff.mp hmem)
  rw [hrelieved.relocated.others id hnot, group?_clearEdge]
  cases hgroup : p.registry.group? id with
  | none => rfl
  | some group =>
      have htraverses : group.route.traversesLink e = false := by
        rw [← Bool.not_eq_true]
        exact fun htraverses => hid (h.mem_traversing.mpr ⟨group, hgroup, htraverses⟩)
      rw [Option.map_some, (h.served hgroup).forget_eq htraverses]

/-- The groups of a decision are served from its node, and booked in full. -/
theorem Relieved.placed (hrelieved : Relieved d p q e relocations)
    {decision : Decision} (hdecision : decision ∈ p.reliefPlan e) (hid : id ∈ decision.groups) :
    ∃ group address route, p.registry.group? id = some group ∧ decision.Suits group ∧
      d.book.nodeAddress decision.node = .ok address ∧
      d.topology.route decision.node group.accessPoint = .ok route ∧
      q.registry.group? id = some (group.servedFrom decision.node address route).inFull := by
  obtain ⟨group, hgroup, hsuits⟩ := suits_of_mem_reliefPlan hdecision hid
  obtain ⟨cleared, address, route, hcleared, haddress, hroute, hserved⟩ :=
    hrelieved.relocated.served id decision.node
      (List.mem_flatMap.mpr ⟨decision, hdecision, Decision.mem_places.mpr ⟨hid, rfl⟩⟩)
  rw [group?_clearEdge, hgroup] at hcleared
  obtain rfl := Option.some.inj hcleared
  rw [Group.inFull_servedFrom_forget] at hserved
  rw [Registry.accessPoint_forget] at hroute
  exact ⟨group, address, route, hgroup, hsuits, haddress, hroute, hserved⟩

/-- Every group on the link is booked in full afterwards. -/
theorem Relieved.full (hrelieved : Relieved d p q e relocations) (h : Coherent d p)
    (hid : id ∈ p.registry.traversing e) :
    ∃ group, q.registry.group? id = some group ∧ group.Full := by
  obtain ⟨decision, hdecision, hmem⟩ :=
    List.mem_flatMap.mp ((h.groups_reliefPlan_perm e).mem_iff.mpr hid)
  obtain ⟨group, address, route, -, -, -, -, hgroup⟩ := hrelieved.placed hdecision hmem
  exact ⟨_, hgroup, Group.full_inFull _⟩

end Placement

/-- Relieving a link never fails, in any state that a run reaches and for any pair of nodes. Each
group that uses the link, in either direction, is relocated once, to a hop of its route, and no
other group is; afterwards it is served at its own access point and books nothing, or it has one
stream per viewer on the first hop of its new route. -/
theorem Deployment.relieve_resolves (d : Deployment α) (ops : List Operation) (e : Edge) :
    ∃ next candidates relocations,
      (d.after ops).relieve e = (next, .ok { edge := e, candidates, relocations }) ∧
      candidates.Pairwise (fun a b => a.index < b.index) ∧
      (∀ id, id ∈ candidates ↔ ∃ group, (d.after ops).registry.group? id = some group ∧
        (e ∈ group.route.edges ∨ e.swap ∈ group.route.edges)) ∧
      (relocations.map Relocation.group).Perm candidates ∧
      (∀ r ∈ relocations, ∃ group group', (d.after ops).registry.group? r.group = some group ∧
        r.target ∈ group.route.hops ∧
        next.registry.group? r.group = some group' ∧ group'.server = r.target) ∧
      ∀ id ∈ candidates, ∃ group, next.registry.group? id = some group ∧
        ((group.server = group.accessPoint ∧ group.booking = none) ∨
          ∃ first, group.route.currentEdge? = some first ∧
            group.booking = some ⟨first, group.size⟩) := by
  have h := d.coherent_after ops
  obtain ⟨next, relocations, heq, hrelieved⟩ := h.relieve_ok e
  have hreported := hrelieved.relocated.reported
  refine ⟨next, _, relocations, heq, h.ascending_traversing e, fun id => ?_, ?_, ?_, ?_⟩
  · rw [h.mem_traversing]
    exact exists_congr fun group => and_congr_right fun _ => Route.traversesLink_iff
  · have hgroups : relocations.map Relocation.group =
        (((d.after ops).reliefPlan e).flatMap Decision.groups) := by
      rw [← map_fst_flatMap_places, ← hreported, List.map_map]
      rfl
    rw [hgroups]
    exact h.groups_reliefPlan_perm e
  · intro r hr
    have hplaced : (r.group, r.target) ∈ ((d.after ops).reliefPlan e).flatMap Decision.places :=
      hreported ▸ List.mem_map_of_mem hr
    obtain ⟨decision, hdecision, hplace⟩ := List.mem_flatMap.mp hplaced
    obtain ⟨hid, hnode⟩ := Decision.mem_places.mp hplace
    obtain ⟨group, address, route, hgroup, hsuits, -, -, hgroup'⟩ := hrelieved.placed hdecision hid
    obtain ⟨before, rest, hhops, -⟩ := hsuits.splits (h.served hgroup)
    exact ⟨group, _, hgroup, by simp [hhops, hnode], hgroup', hnode⟩
  · intro id hid
    obtain ⟨group, hgroup, hfull⟩ := hrelieved.full h hid
    refine ⟨group, hgroup, ?_⟩
    cases hfirst : group.route.currentEdge? with
    | none =>
        rw [Group.Full, hfirst] at hfull
        exact .inl ⟨(hrelieved.coherent.served hgroup).server_eq hfirst, hfull⟩
    | some first =>
        rw [Group.Full, hfirst] at hfull
        exact .inr ⟨first, rfl, hfull⟩

end StreamPlacement
