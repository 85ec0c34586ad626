import StreamPlacement.Proofs.Backhaul.Crossing
import StreamPlacement.Proofs.Placement.Bookings
import StreamPlacement.Proofs.Placement.Relief
import StreamPlacement.Proofs.Placement.Settled

/-!
Relieving a link again.

The second plan sees fewer groups on the link, and shorter routes. Still, groups that were placed
together have either all left the link or are all still on it, since their routes share an edge; so
the groups that now start on an edge are those of one decision, which fit it. And a group that has
the edge of another decision ahead was decided on before it. So nothing is left to do.
-/

namespace StreamPlacement

variable {α : Type} [Quantity α] {d : Deployment α}

theorem Group.servedFrom_self (group : Group) :
    group.servedFrom group.server group.serverAddress group.route = group := rfl

/-- The edge of a decision lies on the old route of a group, and the new route starts on it. -/
theorem Decision.Suits.rest_eq {decision : Decision} {group : Group} (h : decision.Suits group)
    (hserves : d.Serves group) {a b : NodeId} (hreason : decision.reason = .coLocated (a, b)) :
    decision.node = a ∧ ∃ before rest, group.route.hops = before ++ a :: b :: rest ∧
      d.topology.route a group.accessPoint = .ok (.ofHops (a :: b :: rest)) := by
  obtain ⟨before, rest, hhops, hedge⟩ := h.splits hserves
  rw [hreason] at hedge
  rcases rest with _ | ⟨v, rest⟩
  · cases hedge
  · obtain ⟨rfl, rfl⟩ := Prod.mk.inj (Option.some.inj hedge)
    exact ⟨rfl, before, rest, hhops, d.wired.route_suffix hserves.routed hhops⟩

/-- The group was moved down its route to where the decision places it. -/
structure Decision.Moves (decision : Decision) (group moved : Group) : Prop where
  server_eq : moved.server = decision.node
  first_eq : moved.route.currentEdge? = decision.reason.edge?
  size_eq : moved.size = group.size
  edges_subset : moved.route.edges ⊆ group.route.edges

namespace Placement

variable {p q r : Placement α} {e : Edge} {id : GroupId} {relocations again : List Relocation}

/-! ### The groups that are left on the link -/

theorem Relieved.traversing_subset (hrelieved : Relieved d p q e relocations)
    (h : Coherent d p) : q.registry.traversing e ⊆ p.registry.traversing e := by
  intro id hid
  by_contra hnot
  obtain ⟨group, hgroup, htraverses⟩ := hrelieved.coherent.mem_traversing.mp hid
  rw [hrelieved.others h hnot] at hgroup
  exact hnot (h.mem_traversing.mpr ⟨group, hgroup, htraverses⟩)

/-- Groups that are placed together leave the link together. -/
theorem Relieved.stays (hrelieved : Relieved d p q e relocations) (h : Coherent d p)
    {decision : Decision} (hdecision : decision ∈ p.reliefPlan e) {e' : Edge}
    (hreason : decision.reason = .coLocated e') (hid : id ∈ decision.groups)
    (hstill : id ∈ q.registry.traversing e) : decision.groups ⊆ q.registry.traversing e := by
  intro other hother
  obtain ⟨a, b⟩ := e'
  obtain ⟨group, _, route, hgroup, hsuits, -, hroute, hplaced⟩ := hrelieved.placed hdecision hid
  obtain ⟨group', _, route', hgroup', hsuits', -, hroute', hplaced'⟩ :=
    hrelieved.placed hdecision hother
  obtain ⟨rfl, before, rest, hhops, hrest⟩ := hsuits.rest_eq (h.served hgroup) hreason
  obtain ⟨-, before', rest', hhops', hrest'⟩ := hsuits'.rest_eq (h.served hgroup') hreason
  obtain rfl := Except.ok.inj (hroute.symm.trans hrest)
  obtain rfl := Except.ok.inj (hroute'.symm.trans hrest')
  have hbest := (h.served hgroup).best
  have hbest' := (h.served hgroup').best
  -- The one route uses the link from the shared edge on, and the other uses it somewhere.
  obtain ⟨now, hnow, huses⟩ := hrelieved.coherent.mem_traversing.mp hstill
  obtain rfl := Option.some.inj (hplaced.symm.trans hnow)
  obtain ⟨decided, hdecided, huses'⟩ := h.mem_traversing.mp
    ((h.groups_reliefPlan_perm e).mem_iff.mp (List.mem_flatMap.mpr ⟨decision, hdecision, hother⟩))
  obtain rfl : group' = decided := Option.some.inj (hgroup'.symm.trans hdecided)
  refine hrelieved.coherent.mem_traversing.mpr ⟨_, hplaced', Route.traversesLink_iff.mpr ?_⟩
  rw [Route.traversesLink_iff] at huses huses'
  unfold Route.edges at huses'
  rw [hhops] at hbest
  rw [hhops'] at hbest' huses'
  exact hbest'.link_ahead hbest huses' huses

theorem Relieved.moves (hrelieved : Relieved d p q e relocations) (h : Coherent d p)
    {decision : Decision} (hdecision : decision ∈ p.reliefPlan e) (hid : id ∈ decision.groups) :
    ∃ group moved, p.registry.group? id = some group ∧ q.registry.group? id = some moved ∧
      decision.Moves group moved := by
  obtain ⟨group, address, route, hgroup, hsuits, -, hroute, hplaced⟩ :=
    hrelieved.placed hdecision hid
  refine ⟨group, _, hgroup, hplaced, rfl, hsuits.leads (h.served hgroup) route hroute, rfl, ?_⟩
  obtain ⟨before, rest, hhops, -⟩ := hsuits.splits (h.served hgroup)
  obtain rfl := Except.ok.inj
    (hroute.symm.trans (d.wired.route_suffix (h.served hgroup).routed hhops))
  show edgesOf (decision.node :: rest) ⊆ edgesOf group.route.hops
  rw [hhops, edgesOf_append]
  exact List.subset_append_right _ _

/-- No edge is decided on twice. -/
theorem eq_of_mem_reliefPlan {decision decision' : Decision} (hdecision : decision ∈ p.reliefPlan e)
    (hdecision' : decision' ∈ p.reliefPlan e) {e' : Edge} (hreason : decision.reason = .coLocated e')
    (hreason' : decision'.reason = .coLocated e') : decision = decision' := by
  have happart : ∀ {earlier later : Decision}, later ∈ p.reliefPlan e →
      earlier.reason = .coLocated e' → later.reason = .coLocated e' →
        ¬ earlier.Precedes (p.clearEdge e).registry.groups later := by
    intro earlier later hlater hearlier hreason hprecedes
    obtain ⟨id, hid⟩ := List.exists_mem_of_ne_nil _ (ne_nil_of_mem_plan hlater)
    obtain ⟨group, hgroup, hsuits⟩ := ((sound_plan _ _ _).1 later hlater).suits id hid
    rw [Decision.Suits, hreason] at hsuits
    exact hprecedes.apart e' hearlier id hid group hgroup hsuits.2
  by_contra hne
  rcases precedes_or_precedes hdecision hdecision' hne with hbefore | hafter
  · exact happart hdecision' hreason hreason' hbefore
  · exact happart hdecision hreason' hreason hafter

/-- The groups on the link between the ends of `e` that start on `e'`. -/
abbrev starters (p : Placement α) (e e' : Edge) : List GroupId :=
  Plan.startingOn (p.clearEdge e).registry.groups (Plan.inOrder (p.registry.traversing e)) e'

theorem Relieved.mem_starters (hrelieved : Relieved d p q e relocations) (h : Coherent d p)
    {e' : Edge} :
    id ∈ q.starters e e' ↔
      id ∈ q.registry.traversing e ∧
        ∃ decision ∈ p.reliefPlan e, id ∈ decision.groups ∧ decision.reason = .coLocated e' := by
  have hcleared : (q.clearEdge e).registry.groups[id.index]? =
      (q.registry.group? id).map (Registry.forget e) := group?_clearEdge q e id
  rw [Plan.mem_startingOn, Plan.mem_inOrder, hcleared]
  refine and_congr_right fun hstill => ?_
  constructor
  · rintro ⟨_, hgroup, hstart⟩
    obtain ⟨now, hnow, rfl⟩ := Option.map_eq_some_iff.mp hgroup
    obtain ⟨decision, hdecision, hid⟩ := List.mem_flatMap.mp
      ((h.groups_reliefPlan_perm e).mem_iff.mpr (hrelieved.traversing_subset h hstill))
    obtain ⟨_, moved, -, hmoved, hmoves⟩ := hrelieved.moves h hdecision hid
    obtain rfl : now = moved := Option.some.inj (hnow.symm.trans hmoved)
    rw [Registry.route_forget, hmoves.first_eq] at hstart
    exact ⟨decision, hdecision, hid, PlacementReason.edge?_eq_some_iff.mp hstart⟩
  · rintro ⟨decision, hdecision, hid, hreason⟩
    obtain ⟨_, moved, -, hmoved, hmoves⟩ := hrelieved.moves h hdecision hid
    refine ⟨_, by rw [hmoved]; rfl, ?_⟩
    rw [Registry.route_forget, hmoves.first_eq, hreason]
    rfl

/-- If one group of a decision is still on the link, those that start where it does are the groups
of the decision. -/
theorem Relieved.starters_perm (hrelieved : Relieved d p q e relocations) (h : Coherent d p)
    {decision : Decision} (hdecision : decision ∈ p.reliefPlan e) {e' : Edge}
    (hreason : decision.reason = .coLocated e') (hid : id ∈ decision.groups)
    (hstill : id ∈ q.registry.traversing e) : (q.starters e e').Perm decision.groups := by
  refine (List.perm_ext_iff_of_nodup (Plan.nodup_startingOn (Plan.nodup_inOrder _) e')
    ((sound_plan _ _ _).1 decision hdecision).nodup).mpr fun other => ?_
  rw [hrelieved.mem_starters h]
  constructor
  · rintro ⟨-, decision', hdecision', hother, hreason'⟩
    exact eq_of_mem_reliefPlan hdecision hdecision' hreason hreason' ▸ hother
  · intro hother
    exact ⟨hrelieved.stays h hdecision hreason hid hstill hother, decision, hdecision, hother,
      hreason⟩

/-! ### The second plan -/

theorem Relieved.fits_starters (hrelieved : Relieved d p q e relocations) (h : Coherent d p)
    {e' : Edge} (hid : id ∈ q.starters e e') :
    Plan.fits (q.clearEdge e).topology (q.clearEdge e).registry.groups (q.starters e e') e' =
      true := by
  obtain ⟨hstill, decision, hdecision, hmem, hreason⟩ := (hrelieved.mem_starters h).mp hid
  have hperm := hrelieved.starters_perm h hdecision hreason hmem hstill
  have hsize : ∀ other ∈ q.starters e e',
      ((q.clearEdge e).registry.group? other).map Group.size =
        ((p.clearEdge e).registry.group? other).map Group.size := by
    intro other hother
    obtain ⟨group, moved, hgroup, hmoved, hmoves⟩ :=
      hrelieved.moves h hdecision (hperm.mem_iff.mp hother)
    rw [group?_clearEdge, group?_clearEdge, hgroup, hmoved]
    simp [hmoves.size_eq]
  have hfits := fits_of_mem_plan hdecision hreason
  rw [Plan.fits, (h.clearEdge e).1.network.carries_eq] at hfits
  rw [Plan.fits, (hrelieved.coherent.clearEdge e).1.network.carries_eq,
    Plan.jointViewers_congr hperm hsize]
  exact hfits

/-- What a group has ahead now, it had ahead when it was decided on. -/
theorem Relieved.ahead_before (hrelieved : Relieved d p q e relocations) (h : Coherent d p)
    {decision : Decision} (hdecision : decision ∈ p.reliefPlan e) (hid : id ∈ decision.groups)
    {now : Group} (hnow : (q.clearEdge e).registry.group? id = some now) {e' : Edge}
    (hedge : e' ∈ edgesOf now.route.ahead) :
    ∃ group, (p.clearEdge e).registry.group? id = some group ∧
      e' ∈ edgesOf group.route.ahead := by
  obtain ⟨group, moved, hgroup, hmoved, hmoves⟩ := hrelieved.moves h hdecision hid
  have hcleared : (p.clearEdge e).registry.group? id = some (Registry.forget e group) := by
    rw [group?_clearEdge, hgroup]
    rfl
  refine ⟨_, hcleared, ?_⟩
  rw [((h.clearEdge e).1.served hcleared).ahead_eq, Registry.route_forget]
  rw [((hrelieved.coherent.clearEdge e).1.served hnow).ahead_eq] at hedge
  rw [group?_clearEdge, hmoved] at hnow
  obtain rfl := Option.some.inj hnow
  rw [Registry.route_forget] at hedge
  exact hmoves.edges_subset hedge

/-- After a link was relieved, a plan for it has nothing to change. -/
theorem Relieved.settled (hrelieved : Relieved d p q e relocations) (h : Coherent d p) :
    Plan.Settled (q.clearEdge e).topology (q.clearEdge e).registry.groups
      (Plan.inOrder (q.registry.traversing e)) := by
  constructor
  case fits =>
    intro e' hne
    obtain ⟨id, hid⟩ := List.exists_mem_of_ne_nil _ hne
    exact hrelieved.fits_starters h hid
  case first =>
    intro e' start id group hstart hgroup hedge hne
    by_cases hempty : q.starters e e' = []
    · exact ⟨id, hstart, by simp [hempty]⟩
    · obtain ⟨hstill, decision, hdecision, hid, hreason⟩ := (hrelieved.mem_starters h).mp hstart
      obtain ⟨other, hother⟩ := List.exists_mem_of_ne_nil _ hempty
      obtain ⟨hstill', decision', hdecision', hid', hreason'⟩ :=
        (hrelieved.mem_starters h).mp hother
      have hperm := hrelieved.starters_perm h hdecision hreason hid hstill
      have hperm' := hrelieved.starters_perm h hdecision' hreason' hid' hstill'
      have hapart : decision ≠ decision' := by
        rintro rfl
        exact hne (PlacementReason.coLocated.inj (hreason'.symm.trans hreason))
      rcases precedes_or_precedes hdecision hdecision' hapart with hbefore | hafter
      · obtain ⟨lowest, hlowest, hlower⟩ := hbefore.lower
        exact ⟨lowest, hperm.mem_iff.mpr hlowest, fun later hlater =>
          hlower later (hperm'.mem_iff.mp hlater)⟩
      · -- Whoever had the edge ahead would have been placed with the other groups.
        obtain ⟨group', hgroup', hedge'⟩ := hrelieved.ahead_before h hdecision hid hgroup hedge
        exact absurd hedge' (hafter.apart e' hreason' id hid group' hgroup')

/-- The second plan places groups where they are. -/
theorem Relieved.server_eq (hrelieved : Relieved d p q e relocations) (h : Coherent d p)
    {decision : Decision} (hdecision : decision ∈ q.reliefPlan e) (hid : id ∈ decision.groups)
    {group : Group} (hgroup : q.registry.group? id = some group) :
    group.server = decision.node := by
  obtain ⟨cleared, hcleared, hhead⟩ := (hrelieved.settled h).head?_eq hdecision hid
  have hserves : d.Serves cleared := (hrelieved.coherent.clearEdge e).1.served hcleared
  obtain ⟨rest, hhops⟩ := hserves.walk.cons_eq
  rw [hserves.ahead_eq, hhops] at hhead
  obtain rfl : Registry.forget e group = cleared := by
    have hmap := group?_clearEdge q e id
    rw [hgroup] at hmap
    exact Option.some.inj (hmap.symm.trans hcleared)
  rw [← Registry.server_forget e group]
  exact Option.some.inj hhead

/-! ### What is the same afterwards -/

/-- Both times every group is in the same place. -/
theorem Relieved.group?_again (hrelieved : Relieved d p q e relocations) (h : Coherent d p)
    (hagain : Relieved d q r e again) (id : GroupId) :
    r.registry.group? id = q.registry.group? id := by
  have hq := hrelieved.coherent
  by_cases hstill : id ∈ q.registry.traversing e
  · obtain ⟨decision, hdecision, hid⟩ :=
      List.mem_flatMap.mp ((hq.groups_reliefPlan_perm e).mem_iff.mpr hstill)
    obtain ⟨group, address, route, hgroup, -, haddress, hroute, hplaced⟩ :=
      hagain.placed hdecision hid
    have hserves := hq.served hgroup
    rw [← hrelieved.server_eq h hdecision hid hgroup] at haddress hroute hplaced
    obtain rfl := Except.ok.inj (haddress.symm.trans hserves.addressed)
    obtain rfl := Except.ok.inj (hroute.symm.trans hserves.routed)
    obtain ⟨group', hgroup', hfull⟩ := hrelieved.full h (hrelieved.traversing_subset h hstill)
    obtain rfl : group = group' := Option.some.inj (hgroup.symm.trans hgroup')
    rw [hplaced, Group.servedFrom_self, hfull.inFull_eq, hgroup]
  · exact hagain.others hq hstill

/-- Coherent states with the same groups have the same directory. -/
theorem Coherent.directory_eq (h : Coherent d p) (h' : Coherent d q)
    (hregistry : p.registry = q.registry) : p.directory = q.directory := by
  refine OrderedMap.eq_of_get?_eq fun key => ?_
  by_cases hkey : ∃ id group, p.registry.group? id = some group ∧ group.key = key
  · obtain ⟨id, group, hgroup, rfl⟩ := hkey
    rw [h.listed hgroup, h'.listed (hregistry ▸ hgroup)]
  · have hunlisted : ∀ {s : Placement α}, Coherent d s → s.registry = p.registry →
        s.directory.get? key = none := by
      intro s hs hsame
      rw [Option.eq_none_iff_forall_ne_some]
      intro address haddress
      exact hkey (hsame ▸ hs.covered key (OrderedMap.mem_keys_iff.mpr ⟨address, haddress⟩))
    rw [hunlisted h rfl, hunlisted h' hregistry.symm]

theorem Relieved.servers_again (hrelieved : Relieved d p q e relocations) (h : Coherent d p)
    (hagain : Relieved d q r e again) : r.servers = q.servers := by
  refine hagain.warmed.same fun node hnode => ?_
  obtain ⟨decision, hdecision, rfl⟩ := List.mem_map.mp hnode
  obtain ⟨id, hid⟩ := List.exists_mem_of_ne_nil _ (ne_nil_of_mem_plan hdecision)
  -- The node serves a group that the first plan has placed, so it was chosen then.
  have hstill : id ∈ q.registry.traversing e :=
    (hrelieved.coherent.groups_reliefPlan_perm e).mem_iff.mp
      (List.mem_flatMap.mpr ⟨decision, hdecision, hid⟩)
  obtain ⟨first, hfirst, hin⟩ := List.mem_flatMap.mp
    ((h.groups_reliefPlan_perm e).mem_iff.mpr (hrelieved.traversing_subset h hstill))
  obtain ⟨_, moved, -, hmoved, hmoves⟩ := hrelieved.moves h hfirst hin
  rw [← hrelieved.server_eq h hdecision hid hmoved, hmoves.server_eq]
  exact (hrelieved.warmed.known _).mpr (.inl (List.mem_map_of_mem hfirst))

theorem Relieved.moved_again (hrelieved : Relieved d p q e relocations) (h : Coherent d p)
    (hagain : Relieved d q r e again) : ∀ relocation ∈ again, relocation.moved = false := by
  intro relocation hrelocation
  have hplaced : (relocation.group, relocation.target) ∈
      (q.reliefPlan e).flatMap Decision.places :=
    hagain.relocated.reported ▸ List.mem_map_of_mem hrelocation
  obtain ⟨decision, hdecision, hplace⟩ := List.mem_flatMap.mp hplaced
  obtain ⟨hid, hnode⟩ := Decision.mem_places.mp hplace
  obtain ⟨cleared, hcleared, -, hmoved⟩ := hagain.relocated.told relocation hrelocation
  obtain ⟨group, hgroup, rfl⟩ := Option.map_eq_some_iff.mp
    ((group?_clearEdge q e relocation.group).symm.trans hcleared)
  rw [hmoved, Registry.server_forget, hrelieved.server_eq h hdecision hid hgroup, hnode]
  simp

/-- Relieving a link again counts one more event, and does nothing else but write the loads
anew. -/
theorem Relieved.again_eq (hrelieved : Relieved d p q e relocations) (h : Coherent d p)
    (hagain : Relieved d q r e again) :
    r = { q with
      topology := r.topology
      tally := { q.tally with congestionEvents := q.tally.congestionEvents + 1 } } := by
  have hq := hrelieved.coherent
  have hr := hagain.coherent
  have hbook : r.book = q.book := hr.book_eq.trans hq.book_eq.symm
  have hregistry : r.registry = q.registry :=
    Registry.eq_of_group?_eq (hr.grouping_eq.trans hq.grouping_eq.symm)
      (hrelieved.group?_again h hagain)
  have hdirectory : r.directory = q.directory := hr.directory_eq hq hregistry
  have hservers : r.servers = q.servers := hrelieved.servers_again h hagain
  have hstrategy : r.strategy = q.strategy := hagain.relocated.strategy_eq
  have hrequests : r.requests = q.requests := hagain.relocated.requests_eq
  have hpending : r.pending = q.pending := hagain.relocated.pending_eq
  have htally : r.tally =
      { q.tally with congestionEvents := q.tally.congestionEvents + 1 } := by
    have hnone : again.countP Relocation.moved = 0 :=
      List.countP_eq_zero.mpr fun relocation hmem => by
        simp [hrelieved.moved_again h hagain relocation hmem]
    rw [hagain.relocated.tally_eq, hnone]
    rfl
  cases r
  simp_all

/-- Coherent states with the same groups, whose loads are in step with the bookings, have the same
topology. -/
theorem Coherent.topology_eq {d : Deployment Rat} {p q : Placement Rat} (h : Coherent d p)
    (h' : Coherent d q) (hbalanced : Balanced p.topology p.registry)
    (hbalanced' : Balanced q.topology q.registry) (hregistry : p.registry = q.registry) :
    p.topology = q.topology := by
  have hnetwork : p.topology.SameNetwork q.topology := h.network.trans h'.network.symm
  refine hnetwork.eq_of_load_eq fun e => ?_
  rw [hbalanced e, hbalanced' e, hregistry, hnetwork.unit_eq]

end Placement

namespace Deployment

/-- Relieving a link a second time moves no group, and changes nothing but the count of events;
over the exact rationals the loads are the same as well. -/
theorem relieve_twice :
    (∀ {α : Type} [Quantity α] (d : Deployment α) (ops : List Operation) (e : Edge),
      ∃ first second relief again, (d.after ops).relieve e = (first, .ok relief) ∧
        first.relieve e = (second, .ok again) ∧
        (∀ relocation ∈ again.relocations, relocation.moved = false) ∧
        second = { first with
          topology := second.topology
          tally := { first.tally with
            congestionEvents := first.tally.congestionEvents + 1 } }) ∧
    ∀ (d : Deployment Rat) (ops : List Operation) (e : Edge), 0 < d.topology.unit →
      let first := ((d.after ops).relieve e).1
      (first.relieve e).1.topology = first.topology := by
  constructor
  · intro α _ d ops e
    have h := d.coherent_after ops
    obtain ⟨first, relocations, heq, hrelieved⟩ := h.relieve_ok e
    obtain ⟨second, again, heq', hagain⟩ := hrelieved.coherent.relieve_ok e
    exact ⟨first, second, _, _, heq, heq', hrelieved.moved_again h hagain,
      hrelieved.again_eq h hagain⟩
  · intro d ops e hunit
    have h := d.coherent_after ops
    obtain ⟨first, relocations, heq, hrelieved⟩ := h.relieve_ok e
    obtain ⟨second, again, heq', hagain⟩ := hrelieved.coherent.relieve_ok e
    have hstart := (Placement.coherent_start d).balanced_changes hunit d.balanced_start
      (d.changes_after ops)
    have hbalanced := h.balanced_changes hunit hstart (h.changes_relieve e)
    rw [heq] at hbalanced
    have hbalanced' := hrelieved.coherent.balanced_changes hunit hbalanced
      (hrelieved.coherent.changes_relieve e)
    rw [heq'] at hbalanced'
    rw [heq]
    dsimp only
    rw [heq']
    exact hagain.coherent.topology_eq hrelieved.coherent hbalanced' hbalanced
      (Registry.eq_of_group?_eq
        (hagain.coherent.grouping_eq.trans hrelieved.coherent.grouping_eq.symm)
        (hrelieved.group?_again h hagain))

/-- Two viewers are moved off the first link of the line, and then stay where they are. -/
theorem relieve_twice_on_line :
    let crowded := line.after (line.rush.take 2)
    let first := (crowded.relieve (⟨0⟩, ⟨1⟩)).1
    0 < line.topology.unit ∧ first.tally.relocations = 1 ∧
      (first.relieve (⟨0⟩, ⟨1⟩)).1.topology = first.topology := by
  have hunit : 0 < line.topology.unit := by decide +kernel
  exact ⟨hunit, by decide +kernel, relieve_twice.2 line (line.rush.take 2) (⟨0⟩, ⟨1⟩) hunit⟩

end Deployment

end StreamPlacement
