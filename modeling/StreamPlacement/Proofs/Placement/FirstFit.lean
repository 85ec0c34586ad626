import Mathlib.Algebra.Order.Ring.Rat
import StreamPlacement.Proofs.Placement.Partition

/-!
A plan is first fit.

What a decision is made against are the groups placed so far. Those are the groups of the decisions
before it and nobody else: a candidate that is passed over without a decision is unknown or has no
way ahead, so it shares an edge with nobody. Hence what the walk of a later candidate finds open on
an edge can be told from the plan alone.
-/

namespace StreamPlacement

namespace Plan

/-! ### Demand -/

section Demand

variable (t : Topology Rat) (groups : List Group)

/-- The demand of the viewers of a group; a number without a group has none. -/
def demand (id : GroupId) : Rat := ((groups[id.index]?).map fun group => group.size * t.unit).getD 0

/-- The demand of some groups together. -/
def jointDemand (ids : List GroupId) : Rat := (ids.map (demand t groups)).sum

/-- There is no link for some groups, or they demand more than its rate. -/
def Overfull (ids : List GroupId) (e : Edge) : Prop :=
  ∀ link, t.link? e = some link → link.rate < jointDemand t groups ids

/-- The groups that some decisions place on an edge. -/
def placedOn (decisions : List Decision) (e : Edge) : List GroupId :=
  (decisions.filter (·.reason = .coLocated e)).flatMap Decision.groups

variable {t groups}

theorem jointViewers_mul_unit (ids : List GroupId) :
    (jointViewers groups ids : Rat) * t.unit = jointDemand t groups ids := by
  induction ids with
  | nil => simp [jointViewers, jointDemand]
  | cons id ids ih =>
      have hviewers : jointViewers groups (id :: ids) =
          ((groups[id.index]?).map Group.size).getD 0 + jointViewers groups ids := rfl
      have hdemand : ((((groups[id.index]?).map Group.size).getD 0 : Nat) : Rat) * t.unit =
          demand t groups id := by
        unfold demand
        cases groups[id.index]? <;> simp
      rw [hviewers, Nat.cast_add, add_mul, hdemand, ih]
      rfl

theorem fits_iff {ids : List GroupId} {e : Edge} :
    fits t groups ids e = true ↔
      ∃ link, t.link? e = some link ∧ jointDemand t groups ids ≤ link.rate := by
  rw [fits, Topology.carries]
  cases t.link? e with
  | none => simp
  | some link =>
      have hdemand : Quantity.ofNat (jointViewers groups ids) * t.unit = jointDemand t groups ids :=
        jointViewers_mul_unit ids
      simp [hdemand]

theorem overfull_iff {ids : List GroupId} {e : Edge} :
    Overfull t groups ids e ↔ fits t groups ids e = false := by
  rw [← Bool.not_eq_true, fits_iff]
  simp [Overfull]

end Demand

/-! ### Walks -/

variable {α : Type} [Quantity α] {t : Topology α} {groups : List Group}
  {candidates rest placed : List GroupId} {id : GroupId}

/-- An edge is refused if nobody shares it, or it has no room for all who do. -/
def Refused (t : Topology α) (groups : List Group) (candidates placed : List GroupId) (e : Edge) :
    Prop :=
  sharing groups candidates placed e = [] ∨
    fits t groups (sharing groups candidates placed e) e = false

/-- A walk ends at the first edge that is not refused, or past all of them. -/
theorem walk_split {hops : List NodeId} {decision : Decision}
    (h : walk t groups candidates placed id hops = some decision) :
    (∃ e passed left, edgesOf hops = passed ++ e :: left ∧
        decision = ⟨e.1, sharing groups candidates placed e, .coLocated e⟩ ∧
        ∀ e' ∈ passed, Refused t groups candidates placed e') ∨
      ∃ last, decision = ⟨last, [id], .exhausted⟩ ∧
        ∀ e' ∈ edgesOf hops, Refused t groups candidates placed e' := by
  induction hops with
  | nil => cases h
  | cons u hops ih =>
      cases hops with
      | nil => exact .inr ⟨u, (Option.some.inj h).symm, fun e' he' => by cases he'⟩
      | cons v rest =>
          have hedges : edgesOf (u :: v :: rest) = (u, v) :: edgesOf (v :: rest) := rfl
          simp only [walk] at h
          split at h
          · obtain rfl := Option.some.inj h
            exact .inl ⟨(u, v), [], _, hedges, rfl, fun e' he' => by cases he'⟩
          · next hroom =>
              have hrefused : Refused t groups candidates placed (u, v) := by
                rw [Bool.and_eq_true_iff, not_and_or] at hroom
                simpa [Refused] using hroom
              rcases ih h with ⟨e, passed, left, hsplit, hdecision, hpassed⟩ | ⟨last, heq, hpassed⟩
              · refine .inl ⟨e, (u, v) :: passed, left, by rw [hedges, hsplit]; rfl, hdecision, ?_⟩
                exact List.forall_mem_cons.mpr ⟨hrefused, hpassed⟩
              · rw [hedges]
                exact .inr ⟨last, heq, List.forall_mem_cons.mpr ⟨hrefused, hpassed⟩⟩

/-- Of those placed before, only the ones that could be placed make a difference. -/
theorem sharing_congr {placed' : List GroupId}
    (h : ∀ id, Placeable groups id → (id ∈ placed ↔ id ∈ placed')) (e : Edge) :
    sharing groups candidates placed e = sharing groups candidates placed' e := by
  refine List.filter_congr fun id _ => ?_
  cases hahead : (groups[id.index]?).any (·.route.traversesAhead e) with
  | false => simp
  | true =>
      obtain ⟨group, hgroup, he⟩ := Option.any_eq_true _ _ |>.mp hahead
      have hplaceable : Placeable groups id := by
        refine ⟨group, hgroup, fun hnone => ?_⟩
        rw [Route.traversesAhead, hnone] at he
        cases he
      simp [h id hplaceable]

/-! ### The plan so far -/

/-- A decision is made for the lowest candidate that is left, and of those that could be placed it
finds placed who was placed at the start and who is in the decisions before it. -/
theorem turn_of_decide_eq {before later : List Decision} {decision : Decision}
    (hrest : rest ⊆ candidates) (hascending : rest.Pairwise fun a b => a.index < b.index)
    (hpassed : Passed candidates rest placed)
    (h : decide t groups candidates rest placed = before ++ decision :: later) :
    ∃ id ∈ candidates, ∃ placed', id ∉ placed' ∧
      (∀ id' ∈ candidates, id' ∉ placed' → id.index ≤ id'.index) ∧
      (∀ id', Placeable groups id' →
        (id' ∈ placed' ↔ id' ∈ placed ∨ id' ∈ before.flatMap Decision.groups)) ∧
      ∃ group, groups[id.index]? = some group ∧
        walk t groups candidates placed' id group.route.ahead = some decision := by
  induction rest generalizing placed before with
  | nil => simp [decide] at h
  | cons first rest ih =>
      obtain ⟨hfirst, hrest⟩ := List.cons_subset.mp hrest
      obtain ⟨hlower, hascending⟩ := List.pairwise_cons.mp hascending
      rcases decide_turn t groups candidates rest placed first with
        ⟨hplaced, heq⟩ | ⟨hlost, heq⟩ | ⟨group, made, hfree, hgroup, hwalk, heq⟩
      · exact ih hrest hascending (hpassed.next (List.Subset.refl _) hplaced) (heq ▸ h)
      · obtain ⟨id, hid, placed', hfree, hleast, hsame, hwalk⟩ := ih hrest hascending
          (hpassed.next (List.subset_cons_self _ _) List.mem_cons_self) (heq ▸ h)
        refine ⟨id, hid, placed', hfree, hleast, fun id' hplaceable => ?_, hwalk⟩
        have hne : id' ≠ first := fun heq => hlost (heq ▸ hplaceable)
        rw [hsame id' hplaceable, List.mem_cons, or_iff_right hne]
      · rw [heq] at h
        cases before with
        | nil =>
            obtain ⟨rfl, -⟩ := List.cons.inj h
            refine ⟨first, hfirst, placed, hfree, ?_, by simp, group, hgroup, hwalk⟩
            intro id' hid' hfree'
            rcases List.mem_cons.mp ((hpassed id' hid').resolve_left hfree') with rfl | hmem
            · exact Nat.le_refl _
            · exact (hlower id' hmem).le
        | cons head before =>
            obtain ⟨rfl, hlater⟩ := List.cons.inj h
            have hpassed' : Passed candidates rest (first :: (made.groups ++ placed)) :=
              hpassed.next (fun id hid => by simp [hid]) List.mem_cons_self
            have hin : first ∈ made.groups := mem_of_walk hfirst hfree hgroup hwalk
            obtain ⟨id, hid, placed', hfree', hleast, hsame, hwalk'⟩ :=
              ih hrest hascending hpassed' hlater
            refine ⟨id, hid, placed', hfree', hleast, fun id' hplaceable => ?_, hwalk'⟩
            -- The candidate itself is among those placed with it.
            have habsorb : id' = first → id' ∈ made.groups := fun heq => heq ▸ hin
            rw [hsame id' hplaceable, List.flatMap_cons]
            simp only [List.mem_cons, List.mem_append]
            tauto

end Plan

variable {α : Type} [Quantity α] {t : Topology α} {groups : List Group}
  {candidates : List GroupId}

/-- No two decisions of a plan share an edge. -/
theorem nodup_edges_plan (t : Topology α) (groups : List Group) (candidates : List GroupId) :
    ((plan t groups candidates).filterMap (·.reason.edge?)).Nodup := by
  refine List.pairwise_filterMap.mpr ?_
  refine (pairwise_plan t groups candidates).imp_of_mem ?_
  intro earlier later _ hlater hprecedes e he e' he' heq
  obtain rfl : e = e' := heq
  obtain ⟨id, hid⟩ := List.exists_mem_of_ne_nil _ (ne_nil_of_mem_plan hlater)
  obtain ⟨group, hgroup, hsuits⟩ := ((sound_plan t groups candidates).1 later hlater).suits id hid
  rw [Decision.Suits, PlacementReason.edge?_eq_some_iff.mp he'] at hsuits
  exact hprecedes.apart e (PlacementReason.edge?_eq_some_iff.mp he) id hid group hgroup hsuits.2

/-- Whatever is placed on an edge is placed there by one decision. -/
theorem placedOn_plan {decision : Decision} (h : decision ∈ plan t groups candidates) {e : Edge}
    (hreason : decision.reason = .coLocated e) :
    Plan.placedOn (plan t groups candidates) e = decision.groups := by
  obtain ⟨before, later, hsplit⟩ := List.append_of_mem h
  have hnodup := nodup_edges_plan t groups candidates
  have hedge : decision.reason.edge? = some e := PlacementReason.edge?_eq_some_iff.mpr hreason
  rw [hsplit, List.filterMap_append,
    List.filterMap_cons_some (f := fun d : Decision => d.reason.edge?) hedge, List.nodup_middle,
    List.nodup_cons, List.mem_append, not_or] at hnodup
  obtain ⟨⟨hbefore, hlater⟩, -⟩ := hnodup
  have hnone : ∀ decisions : List Decision, e ∉ decisions.filterMap (·.reason.edge?) →
      decisions.filter (·.reason = .coLocated e) = [] := by
    intro decisions habsent
    refine List.filter_eq_nil_iff.mpr fun other hother hsame => habsent ?_
    exact List.mem_filterMap.mpr ⟨other, hother, PlacementReason.edge?_eq_some_iff.mpr (by
      simpa using hsame)⟩
  rw [Plan.placedOn, hsplit, List.filter_append, hnone before hbefore,
    List.filter_cons_of_pos (by simpa using hreason), hnone later hlater]
  simp

/-- A plan for any groups and candidates places groups on pairwise different edges, and on none of
them more than the rate of its link. A decision about an edge takes all candidates that no earlier
decision has placed and that have the edge ahead. Of those the lowest has passed every edge that it
has ahead before this one: the candidates that were open there would together have been too much.
And whoever is served from where its route ends has passed every edge ahead of it that way. -/
theorem plan_first_fit (t : Topology Rat) (groups : List Group) (candidates : List GroupId) :
    let decisions := plan t groups candidates
    (decisions.filterMap (·.reason.edge?)).Nodup ∧
    ∀ before decision later, decisions = before ++ decision :: later →
      let together := Plan.sharing groups (Plan.inOrder candidates)
        (before.flatMap Decision.groups)
      (∀ e id, id ∈ together e ↔
        id ∈ candidates ∧ (∀ earlier ∈ before, id ∉ earlier.groups) ∧
          ∃ group, groups[id.index]? = some group ∧ e ∈ edgesOf group.route.ahead) ∧
      (∀ e, decision.reason = .coLocated e →
        decision.groups = together e ∧
        (∃ link, t.link? e = some link ∧
          Plan.jointDemand t groups (Plan.placedOn decisions e) ≤ link.rate) ∧
        ∃ id ∈ decision.groups, (∀ id' ∈ decision.groups, id.index ≤ id'.index) ∧
          ∃ group passed left, groups[id.index]? = some group ∧
            edgesOf group.route.ahead = passed ++ e :: left ∧
            ∀ e' ∈ passed, Plan.Overfull t groups (together e') e') ∧
      (decision.reason = .exhausted →
        ∃ id group, decision.groups = [id] ∧ groups[id.index]? = some group ∧
          ∀ e ∈ edgesOf group.route.ahead, Plan.Overfull t groups (together e) e) := by
  refine ⟨nodup_edges_plan t groups candidates, ?_⟩
  intro before decision later hsplit together
  have hin : decision ∈ plan t groups candidates := by
    rw [hsplit]
    exact List.mem_append_right _ List.mem_cons_self
  obtain ⟨id, hid, placed, hfree, hleast, hsame, group, hgroup, hwalk⟩ :=
    Plan.turn_of_decide_eq (List.Subset.refl _) (Plan.ascending_inOrder candidates)
      (fun _ hid => .inr hid) hsplit
  have htogether : ∀ e, Plan.sharing groups (Plan.inOrder candidates) placed e = together e :=
    Plan.sharing_congr fun id' hplaceable => by simpa using hsame id' hplaceable
  -- Whoever walks past an edge shares it, so it is the demand that kept the walk going.
  have hover : ∀ e ∈ edgesOf group.route.ahead,
      Plan.Refused t groups (Plan.inOrder candidates) placed e →
        Plan.Overfull t groups (together e) e := by
    intro e he hrefused
    have hshares : id ∈ Plan.sharing groups (Plan.inOrder candidates) placed e :=
      Plan.mem_sharing.mpr ⟨hid, hfree, group, hgroup, he⟩
    rcases hrefused with hnobody | hfull
    · rw [hnobody] at hshares
      cases hshares
    · exact Plan.overfull_iff.mpr (htogether e ▸ hfull)
  refine ⟨?_, ?_, ?_⟩
  · intro e id'
    rw [Plan.mem_sharing, Plan.mem_inOrder]
    simp [List.mem_flatMap]
  · intro e hreason
    rcases Plan.walk_split hwalk with ⟨e', passed, left, hedges, rfl, hpassed⟩ | ⟨last, rfl, -⟩
    case inr => cases hreason
    case inl =>
      obtain rfl := PlacementReason.coLocated.inj hreason
      refine ⟨htogether e', ?_, id, ?_, ?_, group, passed, left, hgroup, hedges, ?_⟩
      · rw [placedOn_plan hin rfl]
        exact Plan.fits_iff.mp (fits_of_mem_plan hin rfl)
      · exact Plan.mem_of_walk hid hfree hgroup hwalk
      · intro id' hid'
        obtain ⟨hcandidate, hfree', -⟩ := Plan.mem_sharing.mp hid'
        exact hleast id' hcandidate hfree'
      · intro e he
        exact hover e (hedges ▸ List.mem_append_left _ he) (hpassed e he)
  · intro hreason
    rcases Plan.walk_split hwalk with ⟨e', _, _, _, rfl, -⟩ | ⟨last, rfl, hpassed⟩
    · cases hreason
    · exact ⟨id, group, rfl, hgroup, fun e he => hover e he (hpassed e he)⟩

end StreamPlacement
