import Mathlib.Data.List.Pairwise
import StreamPlacement.Proofs.Placement.Plan

/-!
A plan is a partition of its candidates, and its decisions are made in order.

Every candidate that has a way ahead is placed by exactly one decision. A decision is made for the
lowest candidate that is not placed yet, and it takes along all that share its edge; so the groups
of any later decision are higher than one of its own, and none of them has its edge ahead.
-/

namespace StreamPlacement

theorem Id.compare_eq_lt_iff {entity : Entity} {a b : Id entity} :
    compare a b = .lt ↔ a.index < b.index := Nat.compare_eq_lt

/-- The group is known and its route is not empty. -/
def Plan.Placeable (groups : List Group) (id : GroupId) : Prop :=
  ∃ group, groups[id.index]? = some group ∧ group.route.ahead ≠ []

/-- What an earlier decision of a plan has over a later one. -/
structure Decision.Precedes (groups : List Group) (earlier later : Decision) : Prop where
  lower : ∃ id ∈ earlier.groups, ∀ id' ∈ later.groups, id.index < id'.index
  apart : ∀ e, earlier.reason = .coLocated e → ∀ id ∈ later.groups, ∀ group,
    groups[id.index]? = some group → e ∉ edgesOf group.route.ahead

namespace Plan

variable {groups : List Group} {candidates rest placed : List GroupId} {id : GroupId}

/-! ### Candidates in order -/

theorem mem_inOrder : id ∈ inOrder candidates ↔ id ∈ candidates := by
  rw [inOrder, OrderedMap.mem_keys_ofList]
  simp

theorem ascending_inOrder (candidates : List GroupId) :
    (inOrder candidates).Pairwise fun a b => a.index < b.index :=
  List.pairwise_map.mpr ((OrderedMap.ascending _).imp Id.compare_eq_lt_iff.mp)

variable {α : Type} [Quantity α] {t : Topology α}

/-! ### One walk -/

theorem edgesOf_cons_subset (u : NodeId) (hops : List NodeId) :
    edgesOf hops ⊆ edgesOf (u :: hops) := by
  cases hops with
  | nil => exact List.nil_subset _
  | cons v rest => exact List.subset_cons_self _ _

/-- A walk ends at the end of the way, or at the first edge that has room for all who share it. -/
theorem walk_cases {hops : List NodeId} {decision : Decision}
    (h : walk t groups candidates placed id hops = some decision) :
    (∃ last, hops.getLast? = some last ∧ decision = ⟨last, [id], .exhausted⟩) ∨
      ∃ e ∈ edgesOf hops,
        decision = ⟨e.1, sharing groups candidates placed e, .coLocated e⟩ ∧
          fits t groups decision.groups e = true := by
  induction hops with
  | nil => cases h
  | cons u hops ih =>
      cases hops with
      | nil => exact .inl ⟨u, rfl, (Option.some.inj h).symm⟩
      | cons v rest =>
          simp only [walk] at h
          split at h
          · next hroom =>
              obtain rfl := Option.some.inj h
              exact .inr ⟨(u, v), List.mem_cons_self, rfl, (Bool.and_eq_true_iff.mp hroom).2⟩
          · rcases ih h with ⟨last, hlast, heq⟩ | ⟨e, he, heq⟩
            · exact .inl ⟨last, by rw [List.getLast?_cons_cons, hlast], heq⟩
            · exact .inr ⟨e, edgesOf_cons_subset u _ he, heq⟩

theorem walk_eq_none_iff {hops : List NodeId} :
    walk t groups candidates placed id hops = none ↔ hops = [] := by
  induction hops with
  | nil => simp [walk]
  | cons u hops ih =>
      cases hops with
      | nil => simp [walk]
      | cons v rest =>
          simp only [walk]
          split
          · simp
          · simpa using ih

/-- Whoever is walked for is placed by the decision. -/
theorem mem_of_walk (hid : id ∈ candidates) (hfree : id ∉ placed) {group : Group}
    (hgroup : groups[id.index]? = some group) {decision : Decision}
    (h : walk t groups candidates placed id group.route.ahead = some decision) :
    id ∈ decision.groups := by
  rcases walk_cases h with ⟨last, -, rfl⟩ | ⟨e, he, rfl, -⟩
  · exact List.mem_singleton.mpr rfl
  · exact mem_sharing.mpr ⟨hid, hfree, group, hgroup, he⟩

theorem subset_of_walk (hid : id ∈ candidates) {hops : List NodeId} {decision : Decision}
    (h : walk t groups candidates placed id hops = some decision) :
    decision.groups ⊆ candidates := by
  intro id' hmem
  rcases walk_cases h with ⟨last, -, rfl⟩ | ⟨e, -, rfl, -⟩
  · exact List.mem_singleton.mp hmem ▸ hid
  · exact (mem_sharing.mp hmem).1

/-! ### All walks -/

/-- A turn passes over a candidate that is placed or cannot be placed, or makes a decision. -/
theorem decide_turn (t : Topology α) (groups : List Group) (candidates rest placed : List GroupId)
    (id : GroupId) :
    (id ∈ placed ∧
        decide t groups candidates (id :: rest) placed = decide t groups candidates rest placed) ∨
      (¬ Placeable groups id ∧
        decide t groups candidates (id :: rest) placed =
          decide t groups candidates rest (id :: placed)) ∨
      ∃ group decision, id ∉ placed ∧ groups[id.index]? = some group ∧
        walk t groups candidates placed id group.route.ahead = some decision ∧
        decide t groups candidates (id :: rest) placed =
          decision :: decide t groups candidates rest (id :: (decision.groups ++ placed)) := by
  simp only [decide]
  split
  · next hplaced => exact .inl ⟨by simpa using hplaced, rfl⟩
  · next hfree =>
      split
      · next hnone =>
          refine .inr (.inl ⟨?_, rfl⟩)
          rintro ⟨group, hgroup, -⟩
          rw [hnone] at hgroup
          cases hgroup
      · next group hgroup =>
          split
          · next hwalk =>
              refine .inr (.inl ⟨?_, rfl⟩)
              rintro ⟨group', hgroup', hahead⟩
              obtain rfl : group = group' := Option.some.inj (hgroup.symm.trans hgroup')
              exact hahead (walk_eq_none_iff.mp hwalk)
          · next decision hwalk =>
              exact .inr (.inr ⟨group, decision, by simpa using hfree, hgroup, hwalk, rfl⟩)

/-- Every decision is made in some turn, for a candidate that is not placed by then. -/
theorem walk_of_mem_decide {decision : Decision}
    (h : decision ∈ decide t groups candidates rest placed) :
    ∃ id ∈ rest, ∃ placed, id ∉ placed ∧ ∃ group, groups[id.index]? = some group ∧
      walk t groups candidates placed id group.route.ahead = some decision := by
  induction rest generalizing placed with
  | nil => cases h
  | cons first rest ih =>
      have hlater : ∀ {placed}, decision ∈ decide t groups candidates rest placed →
          ∃ id ∈ first :: rest, ∃ placed, id ∉ placed ∧ ∃ group,
            groups[id.index]? = some group ∧
              walk t groups candidates placed id group.route.ahead = some decision := by
        intro placed hmem
        obtain ⟨id, hid, hturn⟩ := ih hmem
        exact ⟨id, List.mem_cons_of_mem _ hid, hturn⟩
      rcases decide_turn t groups candidates rest placed first with
        ⟨-, heq⟩ | ⟨-, heq⟩ | ⟨group, made, hfree, hgroup, hwalk, heq⟩
      · exact hlater (heq ▸ h)
      · exact hlater (heq ▸ h)
      · rw [heq] at h
        rcases List.mem_cons.mp h with rfl | hmem
        · exact ⟨first, List.mem_cons_self, placed, hfree, group, hgroup, hwalk⟩
        · exact hlater hmem

theorem subset_of_mem_decide (hrest : rest ⊆ candidates) {decision : Decision}
    (h : decision ∈ decide t groups candidates rest placed) : decision.groups ⊆ candidates := by
  obtain ⟨id, hid, _, -, _, -, hwalk⟩ := walk_of_mem_decide h
  exact subset_of_walk (hrest hid) hwalk

theorem ne_nil_of_mem_decide (hrest : rest ⊆ candidates) {decision : Decision}
    (h : decision ∈ decide t groups candidates rest placed) : decision.groups ≠ [] := by
  obtain ⟨id, hid, _, hfree, _, hgroup, hwalk⟩ := walk_of_mem_decide h
  exact List.ne_nil_of_mem (mem_of_walk (hrest hid) hfree hgroup hwalk)

theorem fits_of_mem_decide {decision : Decision}
    (h : decision ∈ decide t groups candidates rest placed) {e : Edge}
    (hreason : decision.reason = .coLocated e) : fits t groups decision.groups e = true := by
  obtain ⟨_, -, _, -, _, -, hwalk⟩ := walk_of_mem_decide h
  rcases walk_cases hwalk with ⟨last, -, rfl⟩ | ⟨e', -, rfl, hfits⟩
  · cases hreason
  · obtain rfl := PlacementReason.coLocated.inj hreason
    exact hfits

/-- Whoever is still to be placed and can be is placed. -/
theorem mem_decide (hrest : rest ⊆ candidates) (hid : id ∈ rest) (hfree : id ∉ placed)
    (hplaceable : Placeable groups id) :
    ∃ decision ∈ decide t groups candidates rest placed, id ∈ decision.groups := by
  induction rest generalizing placed with
  | nil => cases hid
  | cons first rest ih =>
      obtain ⟨hfirst, hrest⟩ := List.cons_subset.mp hrest
      have hlater : id ≠ first → id ∈ rest := fun hne => (List.mem_cons.mp hid).resolve_left hne
      rcases decide_turn t groups candidates rest placed first with
        ⟨hplaced, heq⟩ | ⟨hlost, heq⟩ | ⟨group, decision, hunplaced, hgroup, hwalk, heq⟩
      · rw [heq]
        exact ih hrest (hlater fun heq => hfree (heq ▸ hplaced)) hfree
      · have hne : id ≠ first := fun heq => hlost (heq ▸ hplaceable)
        rw [heq]
        exact ih hrest (hlater hne) (List.not_mem_cons_of_ne_of_not_mem hne hfree)
      · rw [heq]
        by_cases hmem : id ∈ decision.groups
        · exact ⟨decision, List.mem_cons_self, hmem⟩
        · have hne : id ≠ first := fun heq =>
            hmem (heq ▸ mem_of_walk hfirst hunplaced hgroup hwalk)
          have hfree' : id ∉ first :: (decision.groups ++ placed) := by simp [hne, hmem, hfree]
          obtain ⟨later, hlater, hin⟩ := ih hrest (hlater hne) hfree'
          exact ⟨later, List.mem_cons_of_mem _ hlater, hin⟩

/-- Only candidates that are placed have been passed. -/
def Passed (candidates rest placed : List GroupId) : Prop :=
  ∀ id ∈ candidates, id ∈ placed ∨ id ∈ rest

theorem Passed.next {first : GroupId} {more : List GroupId}
    (h : Passed candidates (first :: rest) placed) (hplaced : placed ⊆ more)
    (hfirst : first ∈ more) : Passed candidates rest more := by
  intro id hid
  rcases h id hid with hid | hid
  · exact .inl (hplaced hid)
  · rcases List.mem_cons.mp hid with rfl | hid
    · exact .inl hfirst
    · exact .inr hid

/-- The decisions that are still to come are made in order. -/
theorem pairwise_decide (hnodup : candidates.Nodup) (hrest : rest ⊆ candidates)
    (hascending : rest.Pairwise fun a b => a.index < b.index)
    (hpassed : Passed candidates rest placed) :
    (decide t groups candidates rest placed).Pairwise (Decision.Precedes groups) := by
  induction rest generalizing placed with
  | nil => simp [decide]
  | cons first rest ih =>
      obtain ⟨hfirst, hrest⟩ := List.cons_subset.mp hrest
      obtain ⟨hlower, hascending⟩ := List.pairwise_cons.mp hascending
      rcases decide_turn t groups candidates rest placed first with
        ⟨hplaced, heq⟩ | ⟨-, heq⟩ | ⟨group, decision, hunplaced, hgroup, hwalk, heq⟩
      · rw [heq]
        exact ih hrest hascending (hpassed.next (List.Subset.refl _) hplaced)
      · rw [heq]
        exact ih hrest hascending
          (hpassed.next (List.subset_cons_self _ _) List.mem_cons_self)
      · rw [heq]
        have hpassed' : Passed candidates rest (first :: (decision.groups ++ placed)) :=
          hpassed.next (fun id hid => by simp [hid]) List.mem_cons_self
        refine List.pairwise_cons.mpr ⟨fun later hlater => ?_, ih hrest hascending hpassed'⟩
        have hin : ∀ id ∈ later.groups, id ∈ candidates ∧
            id ∉ first :: (decision.groups ++ placed) := fun id hid =>
          ⟨subset_of_mem_decide hrest hlater hid,
            ((sound_decide hnodup rest _).1 later hlater).fresh id hid⟩
        constructor
        case lower =>
          refine ⟨first, mem_of_walk hfirst hunplaced hgroup hwalk, fun id hid => ?_⟩
          obtain ⟨hcandidate, hfree⟩ := hin id hid
          exact hlower id ((hpassed' id hcandidate).resolve_left hfree)
        case apart =>
          intro e hreason id hid group' hgroup' he
          obtain ⟨hcandidate, hfree⟩ := hin id hid
          rcases walk_cases hwalk with ⟨last, -, rfl⟩ | ⟨e', -, rfl, -⟩
          · cases hreason
          · -- Whoever had the edge ahead and was not placed has been taken along.
            obtain rfl := PlacementReason.coLocated.inj hreason
            simp only [List.mem_cons, List.mem_append, not_or] at hfree
            exact hfree.2.1 (mem_sharing.mpr ⟨hcandidate, hfree.2.2, group', hgroup', he⟩)

end Plan

variable {α : Type} [Quantity α] {t : Topology α} {groups : List Group}
  {candidates : List GroupId} {id : GroupId}

/-! ### Plans -/

theorem subset_of_mem_plan {decision : Decision} (h : decision ∈ plan t groups candidates) :
    decision.groups ⊆ candidates := fun _ hmem =>
  Plan.mem_inOrder.mp (Plan.subset_of_mem_decide (List.Subset.refl _) h hmem)

theorem ne_nil_of_mem_plan {decision : Decision} (h : decision ∈ plan t groups candidates) :
    decision.groups ≠ [] :=
  Plan.ne_nil_of_mem_decide (List.Subset.refl _) h

theorem fits_of_mem_plan {decision : Decision} (h : decision ∈ plan t groups candidates) {e : Edge}
    (hreason : decision.reason = .coLocated e) : Plan.fits t groups decision.groups e = true :=
  Plan.fits_of_mem_decide h hreason

theorem exists_mem_plan (hid : id ∈ candidates) (hplaceable : Plan.Placeable groups id) :
    ∃ decision ∈ plan t groups candidates, id ∈ decision.groups :=
  Plan.mem_decide (List.Subset.refl _) (Plan.mem_inOrder.mpr hid) List.not_mem_nil hplaceable

theorem pairwise_plan (t : Topology α) (groups : List Group) (candidates : List GroupId) :
    (plan t groups candidates).Pairwise (Decision.Precedes groups) :=
  Plan.pairwise_decide (Plan.nodup_inOrder candidates) (List.Subset.refl _)
    (Plan.ascending_inOrder candidates) fun _ hid => .inr hid

theorem precedes_or_precedes {decision decision' : Decision}
    (h : decision ∈ plan t groups candidates) (h' : decision' ∈ plan t groups candidates)
    (hne : decision ≠ decision') :
    decision.Precedes groups decision' ∨ decision'.Precedes groups decision := by
  have hsymm : Std.Symm fun a b : Decision => a.Precedes groups b ∨ b.Precedes groups a :=
    ⟨fun _ _ => Or.symm⟩
  have hpairwise : (plan t groups candidates).Pairwise fun a b =>
      a.Precedes groups b ∨ b.Precedes groups a := (pairwise_plan t groups candidates).imp .inl
  exact hpairwise.forall h h' hne

theorem Plan.jointViewers_congr {groups' : List Group} {ids ids' : List GroupId}
    (hperm : ids.Perm ids') (hsize : ∀ id ∈ ids,
      (groups[id.index]?).map Group.size = (groups'[id.index]?).map Group.size) :
    jointViewers groups ids = jointViewers groups' ids' := by
  have hsame : (ids.map fun id => ((groups[id.index]?).map Group.size).getD 0) =
      ids.map fun id => ((groups'[id.index]?).map Group.size).getD 0 :=
    List.map_congr_left fun id hid => by rw [hsize id hid]
  unfold jointViewers
  rw [hsame]
  exact (hperm.map _).sum_nat

/-- If all candidates can be placed, the groups of all decisions are the candidates. -/
theorem groups_plan_perm (hnodup : candidates.Nodup)
    (hplaceable : ∀ id ∈ candidates, Plan.Placeable groups id) :
    ((plan t groups candidates).flatMap Decision.groups).Perm candidates := by
  refine (List.perm_ext_iff_of_nodup (sound_plan t groups candidates).2 hnodup).mpr fun id => ?_
  rw [List.mem_flatMap]
  constructor
  · rintro ⟨decision, hdecision, hid⟩
    exact subset_of_mem_plan hdecision hid
  · intro hid
    exact exists_mem_plan hid (hplaceable id hid)

end StreamPlacement
