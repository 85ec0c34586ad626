import Mathlib.Data.List.Nodup
import StreamPlacement.Placement.Relief
import StreamPlacement.Proofs.Container.OrderedMap

/-!
What a plan decides.

Every decision names a place on the way of each of its groups: the near end of an edge that all of
them have ahead, or the end of the one route. No group is placed twice, so each decision is about
routes that the ones before it have not changed.
-/

namespace StreamPlacement

theorem PlacementReason.edge?_eq_some_iff {reason : PlacementReason} {e : Edge} :
    reason.edge? = some e ↔ reason = .coLocated e := by
  cases reason <;> simp [PlacementReason.edge?]

/-- The place of a decision is on the way ahead of a group. -/
def Decision.Suits (decision : Decision) (group : Group) : Prop :=
  match decision.reason with
  | .coLocated e => decision.node = e.1 ∧ e ∈ edgesOf group.route.ahead
  | .exhausted => group.route.ahead.getLast? = some decision.node

/-- A decision on some of the groups, none of them placed before. -/
structure Decision.Sound (groups : List Group) (placed : List GroupId) (decision : Decision) :
    Prop where
  suits : ∀ id ∈ decision.groups, ∃ group, groups[id.index]? = some group ∧ decision.Suits group
  nodup : decision.groups.Nodup
  fresh : ∀ id ∈ decision.groups, id ∉ placed

theorem Decision.Sound.suits_of {groups : List Group} {placed : List GroupId} {decision : Decision}
    (h : decision.Sound groups placed) {id : GroupId} (hid : id ∈ decision.groups) {group : Group}
    (hgroup : groups[id.index]? = some group) : decision.Suits group := by
  obtain ⟨group', hgroup', hsuits⟩ := h.suits id hid
  obtain rfl : group' = group := Option.some.inj (hgroup'.symm.trans hgroup)
  exact hsuits

namespace Plan

variable {groups : List Group} {candidates placed : List GroupId} {id : GroupId}

theorem mem_sharing {e : Edge} :
    id ∈ sharing groups candidates placed e ↔
      id ∈ candidates ∧ id ∉ placed ∧
        ∃ group, groups[id.index]? = some group ∧ e ∈ edgesOf group.route.ahead := by
  simp [sharing, Option.any_eq_true, Route.traversesAhead]

theorem nodup_inOrder (candidates : List GroupId) : (inOrder candidates).Nodup :=
  OrderedMap.keys_nodup _

variable {α : Type} [Quantity α] {t : Topology α}

theorem sound_walk (hnodup : candidates.Nodup) (hid : id ∉ placed) {group : Group}
    (hgroup : groups[id.index]? = some group) {hops : List NodeId}
    (hsuffix : hops <:+ group.route.ahead) {decision : Decision}
    (h : walk t groups candidates placed id hops = some decision) :
    decision.Sound groups placed := by
  induction hops with
  | nil => cases h
  | cons u rest ih =>
      cases rest with
      | nil =>
          obtain rfl := Option.some.inj h
          obtain ⟨before, hahead⟩ := hsuffix
          refine ⟨fun id' hmem => ?_, List.nodup_singleton id, fun id' hmem => ?_⟩
          · obtain rfl := List.mem_singleton.mp hmem
            refine ⟨group, hgroup, ?_⟩
            simp [Decision.Suits, ← hahead]
          · obtain rfl := List.mem_singleton.mp hmem
            exact hid
      | cons v rest =>
          simp only [walk] at h
          split at h
          · obtain rfl := Option.some.inj h
            refine ⟨fun id' hmem => ?_, hnodup.filter _, fun id' hmem => (mem_sharing.mp hmem).2.1⟩
            obtain ⟨-, -, group', hgroup', hedge⟩ := mem_sharing.mp hmem
            exact ⟨group', hgroup', rfl, hedge⟩
          · exact ih (.trans (List.suffix_cons u _) hsuffix) h

/-- The decisions that are still to come are sound, and share no group. -/
theorem sound_decide (hnodup : candidates.Nodup) (rest : List GroupId) (placed : List GroupId) :
    (∀ decision ∈ decide t groups candidates rest placed, decision.Sound groups placed) ∧
      ((decide t groups candidates rest placed).flatMap Decision.groups).Nodup := by
  induction rest generalizing placed with
  | nil => simp [decide]
  | cons id rest ih =>
      have hweaken : ∀ {more : List GroupId}, placed ⊆ more → ∀ decision : Decision,
          decision.Sound groups more → decision.Sound groups placed :=
        fun hsub _ h => ⟨h.suits, h.nodup, fun id' hmem hplaced => h.fresh id' hmem (hsub hplaced)⟩
      have hskip : placed ⊆ id :: placed := List.subset_cons_self id placed
      unfold decide
      split
      · exact ih placed
      · next hid =>
          split
          · obtain ⟨hsound, hflat⟩ := ih (id :: placed)
            exact ⟨fun decision hmem => hweaken hskip decision (hsound decision hmem), hflat⟩
          · next group hgroup =>
              split
              · obtain ⟨hsound, hflat⟩ := ih (id :: placed)
                exact ⟨fun decision hmem => hweaken hskip decision (hsound decision hmem), hflat⟩
              · next decision hwalk =>
                  have hfirst : decision.Sound groups placed :=
                    sound_walk hnodup (by simpa using hid) hgroup (List.suffix_refl _) hwalk
                  obtain ⟨hsound, hflat⟩ := ih (id :: (decision.groups ++ placed))
                  have hmore : placed ⊆ id :: (decision.groups ++ placed) := by
                    intro id' hmem
                    simp [hmem]
                  refine ⟨?_, ?_⟩
                  · rintro later hmem
                    rcases List.mem_cons.mp hmem with rfl | hmem
                    · exact hfirst
                    · exact hweaken hmore later (hsound later hmem)
                  · rw [List.flatMap_cons, List.nodup_append]
                    refine ⟨hfirst.nodup, hflat, ?_⟩
                    -- What is placed here counts as placed for every later decision.
                    rintro id' hmem _ hlater rfl
                    obtain ⟨later, hdecision, hin⟩ := List.mem_flatMap.mp hlater
                    exact (hsound later hdecision).fresh id' hin (by simp [hmem])

end Plan

theorem sound_plan {α : Type} [Quantity α] (t : Topology α) (groups : List Group)
    (candidates : List GroupId) :
    (∀ decision ∈ plan t groups candidates, decision.Sound groups []) ∧
      ((plan t groups candidates).flatMap Decision.groups).Nodup :=
  Plan.sound_decide (Plan.nodup_inOrder candidates) _ _

end StreamPlacement
