import StreamPlacement.Proofs.Placement.Repetition

/-!
What is left on a link that was relieved.

A plan asks of every hop in turn whether it has room for all who share it, from the server down, and
the first hop that has ends the search. So the groups that start on an edge of the link afterwards
fit it together. But a group that found room on a hop before the link stays there, and still uses the
link: relief is complete where nobody comes to the link from further up.
-/

namespace StreamPlacement

/-- The viewers of all groups that use the link between the ends of `e` and start on `first`. -/
def Registry.viewersFrom (registry : Registry) (e first : Edge) : Nat :=
  ((registry.groups.filter fun group =>
    group.route.traversesLink e && group.route.currentEdge? == some first).map Group.size).sum

/-- Every group that uses the link between the ends of `e` starts on it, in the direction of `e`. -/
def Registry.AllStartOn (registry : Registry) (e : Edge) : Prop :=
  ∀ group ∈ registry.groups, group.route.traversesLink e = true →
    group.route.currentEdge? = some e

theorem mem_of_mem_link {e : Edge} {hops : List NodeId}
    (h : e ∈ edgesOf hops ∨ e.swap ∈ edgesOf hops) : e.1 ∈ hops := by
  rcases h with h | h
  · exact fst_mem_of_mem_edgesOf h
  · exact List.mem_of_mem_tail (snd_mem_of_mem_edgesOf h)

/-- A simple route that starts on a link leaves it with its first hop. -/
theorem eq_of_suffix_of_mem_link {u v : NodeId} {rest hops : List NodeId}
    (hnodup : (u :: v :: rest).Nodup) (hsuffix : hops <:+ u :: v :: rest)
    (huses : (u, v) ∈ edgesOf hops ∨ (u, v).swap ∈ edgesOf hops) : hops = u :: v :: rest := by
  rcases List.suffix_cons_iff.mp hsuffix with heq | hshorter
  · exact heq
  · have hmem : u ∈ v :: rest := hshorter.subset (mem_of_mem_link huses)
    exact absurd hmem (List.nodup_cons.mp hnodup).1

namespace Placement

section

variable {α : Type} [Quantity α] {d : Deployment α} {p q : Placement α} {e first : Edge}
  {id : GroupId} {relocations : List Relocation}

/-! ### Who starts where -/

/-- The demand that a plan adds up is that of the groups themselves. -/
theorem Coherent.jointViewers_map_id (h : Coherent d p) (keep : Group → Bool) :
    Plan.jointViewers p.registry.groups ((p.registry.groups.filter keep).map Group.id) =
      ((p.registry.groups.filter keep).map Group.size).sum := by
  have hsize : ∀ group ∈ p.registry.groups.filter keep,
      ((p.registry.group? group.id).map Group.size).getD 0 = group.size := by
    intro group hmem
    obtain ⟨id, hgroup⟩ := Registry.mem_groups_iff.mp (List.mem_of_mem_filter hmem)
    rw [h.numbered hgroup, hgroup]
    rfl
  show (List.map _ _).sum = _
  rw [List.map_map]
  exact congrArg List.sum (List.map_congr_left hsize)

/-- Clearing an edge moves nobody. -/
theorem viewersFrom_clearEdge (p : Placement α) (e first : Edge) :
    (p.clearEdge e).registry.viewersFrom e first = p.registry.viewersFrom e first := by
  show ((List.filter _ (p.registry.groups.map (Registry.forget e))).map Group.size).sum = _
  rw [List.filter_map, List.map_map, Registry.viewersFrom]
  congr 2
  · exact funext fun group => Registry.size_forget e group
  · refine congrArg (List.filter · _) (funext fun group => ?_)
    rw [Function.comp_apply, Registry.route_forget]

/-- The groups that a plan for the link sees on the first hop `first`. -/
theorem Coherent.starters_perm (h : Coherent d p) (e first : Edge) :
    (p.starters e first).Perm
      (((p.clearEdge e).registry.groups.filter fun group =>
        group.route.traversesLink e && group.route.currentEdge? == some first).map Group.id) := by
  have hcleared := (h.clearEdge e).1
  refine (List.perm_ext_iff_of_nodup (Plan.nodup_startingOn (Plan.nodup_inOrder _) first)
    (hcleared.nodup_map_id _)).mpr fun id => ?_
  rw [Plan.mem_startingOn, Plan.mem_inOrder, hcleared.mem_map_id,
    ← Registry.traversing_clearBookings p.registry e e]
  show id ∈ (p.clearEdge e).registry.traversing e ∧ _ ↔ _
  rw [hcleared.mem_traversing]
  constructor
  · rintro ⟨⟨group, hgroup, huses⟩, group', hgroup', hfirst⟩
    obtain rfl : group = group' := Option.some.inj (hgroup.symm.trans hgroup')
    exact ⟨group, hgroup, by simp [huses, hfirst]⟩
  · rintro ⟨group, hgroup, hkeep⟩
    rw [Bool.and_eq_true, beq_iff_eq] at hkeep
    exact ⟨⟨group, hgroup, hkeep.1⟩, group, hgroup, hkeep.2⟩

/-- The first hop of a group that is left on the link has room for all who are left there with
it. -/
theorem Relieved.carries_first (hrelieved : Relieved d p q e relocations) (h : Coherent d p)
    {group : Group} (hgroup : q.registry.group? id = some group)
    (huses : group.route.traversesLink e = true) :
    ∃ first, group.route.currentEdge? = some first ∧
      d.topology.carries first (q.registry.viewersFrom e first) = true := by
  have hq := hrelieved.coherent
  have hcleared := (hq.clearEdge e).1
  have hnow : (q.clearEdge e).registry.group? id = some (Registry.forget e group) := by
    rw [group?_clearEdge, hgroup]
    rfl
  -- A route that uses a link has a first hop.
  obtain ⟨first, hfirst⟩ : ∃ first, group.route.currentEdge? = some first := by
    rw [(hq.served hgroup).currentEdge?_eq, ← Option.isSome_iff_exists, List.isSome_head?]
    rcases Route.traversesLink_iff.mp huses with hmem | hmem <;> exact List.ne_nil_of_mem hmem
  have hstarter : id ∈ q.starters e first :=
    Plan.mem_startingOn.mpr ⟨Plan.mem_inOrder.mpr (hq.mem_traversing.mpr ⟨group, hgroup, huses⟩),
      _, hnow, by rw [Registry.route_forget, hfirst]⟩
  have hfits := hrelieved.fits_starters h hstarter
  rw [Plan.fits, hcleared.network.carries_eq,
    Plan.jointViewers_congr (hq.starters_perm e first) fun _ _ => rfl,
    hcleared.jointViewers_map_id] at hfits
  refine ⟨first, hfirst, ?_⟩
  rw [← viewersFrom_clearEdge]
  exact hfits

/-- Whoever started on the link and is still on it has not been moved. -/
theorem Relieved.allStartOn (hrelieved : Relieved d p q e relocations) (h : Coherent d p)
    (hstart : p.registry.AllStartOn e) : q.registry.AllStartOn e := by
  intro now hmem huses
  have hq := hrelieved.coherent
  obtain ⟨id, hnow⟩ := Registry.mem_groups_iff.mp hmem
  have hid := hrelieved.traversing_subset h (hq.mem_traversing.mpr ⟨now, hnow, huses⟩)
  obtain ⟨old, hold, holdUses⟩ := h.mem_traversing.mp hid
  have hfirst := hstart old (Registry.mem_groups_iff.mpr ⟨id, hold⟩) holdUses
  obtain ⟨decision, hdecision, hplace⟩ :=
    List.mem_flatMap.mp ((h.groups_reliefPlan_perm e).mem_iff.mpr hid)
  obtain ⟨group, _, route, hgroup, hsuits, -, hroute, hplaced⟩ := hrelieved.placed hdecision hplace
  obtain rfl : old = group := Option.some.inj (hold.symm.trans hgroup)
  obtain rfl := Option.some.inj (hnow.symm.trans hplaced)
  obtain ⟨u, v⟩ := e
  obtain ⟨rest, hhops⟩ := Route.currentEdge?_eq_some_iff.mp hfirst
  rw [(h.served hold).ahead_eq] at hhops
  have hbest := (h.served hold).best
  obtain ⟨-, -, -, hcursor⟩ := d.wired.route_eq_ok_iff.mp hroute
  have hsuffix := hsuits.suffix (h.served hold) hroute
  rw [hhops] at hsuffix hbest
  have heq : route.hops = u :: v :: rest :=
    eq_of_suffix_of_mem_link hbest.nodup hsuffix (Route.traversesLink_iff.mp huses)
  refine Route.currentEdge?_eq_some_iff.mpr ⟨rest, ?_⟩
  show route.ahead = _
  rw [Route.ahead_eq_hops hcursor, heq]

end

/-! ### Demand -/

/-- The demand on a link is that of both directions together. -/
theorem linkDemand_swap {α : Type} [Quantity α] (p : Placement α) (e : Edge) :
    p.linkDemand e.swap = p.linkDemand e := by
  simp only [linkDemand, Route.traversesLink_swap]

section

variable {d : Deployment Rat} {p q : Placement Rat} {e : Edge} {relocations : List Relocation}

theorem linkDemand_eq (p : Placement Rat) (e : Edge) :
    p.linkDemand e = p.topology.unit *
      (((p.registry.groups.filter (·.route.traversesLink e)).map Group.size).sum : Nat) := by
  have hfold : ∀ (groups : List Group) (start : Rat),
      (groups.map (·.demand p.topology.unit)).foldl (· + ·) start =
        start + p.topology.unit * ((groups.map Group.size).sum : Nat) := by
    intro groups
    induction groups with
    | nil => simp
    | cons group rest ih =>
        intro start
        have hdemand : group.demand p.topology.unit = (group.size : Rat) * p.topology.unit := rfl
        rw [List.map_cons, List.foldl_cons, ih, hdemand, List.map_cons, List.sum_cons]
        push_cast
        ring
  rw [linkDemand, hfold]
  exact zero_add _

/-- If everybody who is left on the link starts on it in the same direction, the demand that is left
fits it. -/
theorem Relieved.linkDemand_le (hrelieved : Relieved d p q e relocations) (h : Coherent d p)
    (hstart : q.registry.AllStartOn e) {link : Link Rat} (hlink : d.topology.link? e = some link)
    (hrate : 0 ≤ link.rate) : q.linkDemand e ≤ link.rate := by
  rw [linkDemand_eq]
  by_cases hempty : q.registry.groups.filter (·.route.traversesLink e) = []
  · rw [hempty]
    simpa using hrate
  · obtain ⟨group, hmem⟩ := List.exists_mem_of_ne_nil _ hempty
    obtain ⟨hmem, huses⟩ := List.mem_filter.mp hmem
    obtain ⟨id, hgroup⟩ := Registry.mem_groups_iff.mp hmem
    obtain ⟨first, hfirst, hcarries⟩ := hrelieved.carries_first h hgroup huses
    obtain rfl : first = e := Option.some.inj (hfirst.symm.trans (hstart group hmem huses))
    have hviewers : q.registry.viewersFrom first first =
        ((q.registry.groups.filter (·.route.traversesLink first)).map Group.size).sum := by
      refine congrArg (fun groups => (List.map Group.size groups).sum) (List.filter_congr ?_)
      intro other hother
      by_cases hon : other.route.traversesLink first = true
      · simp [hon, hstart other hother hon]
      · simp [hon]
    rw [Topology.carries, hlink, hviewers] at hcarries
    rw [hrelieved.coherent.network.unit_eq, mul_comm]
    exact of_decide_eq_true hcarries

end

end Placement

end StreamPlacement
