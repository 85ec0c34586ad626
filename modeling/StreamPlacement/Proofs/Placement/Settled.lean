import StreamPlacement.Proofs.Backhaul.RouteCursor
import StreamPlacement.Proofs.Placement.Partition

/-!
When a plan leaves every group where it is.

A group starts on the first hop of its route. Suppose that the groups that start on an edge always
fit it together, and that whoever has the edge further ahead is decided on before any of them. Then
the groups that share an edge when its turn comes are just those that start on it, and the plan
places them where they start.
-/

namespace StreamPlacement

theorem filter_eq_of_mem_iff {β : Type} {xs : List β} {keep keep' : β → Bool}
    (h : ∀ x, x ∈ xs.filter keep ↔ x ∈ xs.filter keep') : xs.filter keep = xs.filter keep' := by
  refine List.filter_congr fun x hx => ?_
  have hx' := h x
  rwa [List.mem_filter, List.mem_filter, and_iff_right hx, and_iff_right hx,
    ← Bool.eq_iff_iff] at hx'

namespace Plan

/-- The candidates that start on `e`. -/
def startingOn (groups : List Group) (candidates : List GroupId) (e : Edge) : List GroupId :=
  candidates.filter fun id => (groups[id.index]?).any (·.route.currentEdge? == some e)

/-- No group was placed without those that start where it does. -/
def Closed (groups : List Group) (candidates placed : List GroupId) : Prop :=
  ∀ e, ∀ id ∈ startingOn groups candidates e, id ∈ placed →
    startingOn groups candidates e ⊆ placed

variable {groups : List Group} {candidates rest placed : List GroupId} {id : GroupId} {e e' : Edge}

theorem mem_startingOn :
    id ∈ startingOn groups candidates e ↔
      id ∈ candidates ∧ ∃ group, groups[id.index]? = some group ∧
        group.route.currentEdge? = some e := by
  simp [startingOn, Option.any_eq_true]

theorem nodup_startingOn (h : candidates.Nodup) (e : Edge) :
    (startingOn groups candidates e).Nodup := h.filter _

theorem startingOn_inj (h : id ∈ startingOn groups candidates e)
    (h' : id ∈ startingOn groups candidates e') : e = e' := by
  obtain ⟨-, group, hgroup, hstart⟩ := mem_startingOn.mp h
  obtain ⟨-, group', hgroup', hstart'⟩ := mem_startingOn.mp h'
  obtain rfl : group = group' := Option.some.inj (hgroup.symm.trans hgroup')
  exact Option.some.inj (hstart.symm.trans hstart')

theorem Closed.append {more : List GroupId} (hmore : Closed groups candidates more)
    (h : Closed groups candidates placed) : Closed groups candidates (more ++ placed) := by
  intro e id hstart hmem
  rcases List.mem_append.mp hmem with hmem | hmem
  · exact List.subset_append_of_subset_left _ (hmore e id hstart hmem)
  · exact List.subset_append_of_subset_right _ (h e id hstart hmem)

theorem closed_startingOn : Closed groups candidates (startingOn groups candidates e) := by
  intro e' id hstart hmem
  rw [startingOn_inj hstart hmem]
  exact List.Subset.refl _

variable {α : Type} [Quantity α] {t : Topology α}

/-- The groups that start on an edge fit it, and are decided on after all others that have it
ahead. -/
structure Settled (t : Topology α) (groups : List Group) (candidates : List GroupId) : Prop where
  fits : ∀ e, startingOn groups candidates e ≠ [] →
    Plan.fits t groups (startingOn groups candidates e) e = true
  first : ∀ {e e' id group}, id ∈ startingOn groups candidates e' →
    groups[id.index]? = some group → e ∈ edgesOf group.route.ahead → e ≠ e' →
      ∃ lowest ∈ startingOn groups candidates e',
        ∀ later ∈ startingOn groups candidates e, lowest.index < later.index

/-- When the turn of an edge comes, whoever shares it starts on it. -/
theorem Settled.sharing_eq (h : Settled t groups candidates)
    (hid : id ∈ startingOn groups candidates e) (hfree : id ∉ placed)
    (hlower : ∀ other ∈ candidates, other.index < id.index → other ∈ placed)
    (hclosed : Closed groups candidates placed) :
    sharing groups candidates placed e = startingOn groups candidates e := by
  refine filter_eq_of_mem_iff fun other => ?_
  show other ∈ sharing groups candidates placed e ↔ other ∈ startingOn groups candidates e
  constructor
  · intro hshares
    obtain ⟨hother, hunplaced, group, hgroup, hedge⟩ := mem_sharing.mp hshares
    -- A group that has the edge ahead starts somewhere; elsewhere, it would have been placed.
    obtain ⟨u, v, rest, hahead⟩ : ∃ u v rest, group.route.ahead = u :: v :: rest := by
      rcases hahead : group.route.ahead with _ | ⟨u, _ | ⟨v, rest⟩⟩
      · rw [hahead] at hedge
        cases hedge
      · rw [hahead] at hedge
        cases hedge
      · exact ⟨u, v, rest, rfl⟩
    have hstart : other ∈ startingOn groups candidates (u, v) :=
      mem_startingOn.mpr ⟨hother, group, hgroup,
        Route.currentEdge?_eq_some_iff.mpr ⟨rest, hahead⟩⟩
    by_cases heq : e = (u, v)
    · exact heq ▸ hstart
    · obtain ⟨lowest, hlowest, hbefore⟩ := h.first hstart hgroup hedge heq
      have hplaced := hlower lowest (mem_startingOn.mp hlowest).1 (hbefore id hid)
      exact absurd (hclosed _ lowest hlowest hplaced hstart) hunplaced
  · intro hstart
    obtain ⟨hother, group, hgroup, hfirst⟩ := mem_startingOn.mp hstart
    obtain ⟨rest, hahead⟩ := Route.currentEdge?_eq_some_iff.mp hfirst
    refine mem_sharing.mpr ⟨hother, fun hplaced => ?_, group, hgroup, ?_⟩
    · exact hfree (hclosed e other hstart hplaced hid)
    · rw [hahead]
      exact List.mem_cons_self

/-- The groups of a decision are placed where their way ahead begins, and together with all that
start where they do. -/
theorem Settled.walk (h : Settled t groups candidates) (hid : id ∈ candidates)
    (hfree : id ∉ placed) (hlower : ∀ other ∈ candidates, other.index < id.index → other ∈ placed)
    (hclosed : Closed groups candidates placed) {group : Group}
    (hgroup : groups[id.index]? = some group) {decision : Decision}
    (hwalk : Plan.walk t groups candidates placed id group.route.ahead = some decision) :
    (∀ other ∈ decision.groups, ∃ group, groups[other.index]? = some group ∧
        group.route.ahead.head? = some decision.node) ∧
      Closed groups candidates decision.groups := by
  rcases hahead : group.route.ahead with _ | ⟨u, _ | ⟨v, rest⟩⟩
  · rw [hahead] at hwalk
    cases hwalk
  · rw [hahead] at hwalk
    obtain rfl := Option.some.inj hwalk
    constructor
    · intro other hmem
      obtain rfl := List.mem_singleton.mp hmem
      exact ⟨group, hgroup, by rw [hahead]; rfl⟩
    · intro e other hstart hmem
      obtain rfl := List.mem_singleton.mp hmem
      obtain ⟨-, group', hgroup', hfirst⟩ := mem_startingOn.mp hstart
      obtain rfl : group = group' := Option.some.inj (hgroup.symm.trans hgroup')
      obtain ⟨rest, hedge⟩ := Route.currentEdge?_eq_some_iff.mp hfirst
      rw [hahead] at hedge
      cases hedge
  · have hstart : id ∈ startingOn groups candidates (u, v) :=
      mem_startingOn.mpr ⟨hid, group, hgroup, Route.currentEdge?_eq_some_iff.mpr ⟨rest, hahead⟩⟩
    have hne : startingOn groups candidates (u, v) ≠ [] := List.ne_nil_of_mem hstart
    rw [hahead, Plan.walk, h.sharing_eq hstart hfree hlower hclosed, h.fits _ hne] at hwalk
    obtain rfl : (⟨u, startingOn groups candidates (u, v), .coLocated (u, v)⟩ : Decision) =
      decision := by simpa [hne] using hwalk
    refine ⟨fun other hmem => ?_, closed_startingOn⟩
    obtain ⟨-, group', hgroup', hfirst⟩ := mem_startingOn.mp hmem
    obtain ⟨rest', hahead'⟩ := Route.currentEdge?_eq_some_iff.mp hfirst
    exact ⟨group', hgroup', by rw [hahead']; rfl⟩

theorem Settled.decide (h : Settled t groups candidates) (hrest : rest ⊆ candidates)
    (hascending : rest.Pairwise fun a b => a.index < b.index)
    (hpassed : Passed candidates rest placed) (hclosed : Closed groups candidates placed) :
    ∀ decision ∈ Plan.decide t groups candidates rest placed, ∀ id ∈ decision.groups, ∃ group,
      groups[id.index]? = some group ∧ group.route.ahead.head? = some decision.node := by
  induction rest generalizing placed with
  | nil => simp [Plan.decide]
  | cons first rest ih =>
      obtain ⟨hfirst, hrest⟩ := List.cons_subset.mp hrest
      obtain ⟨hahead, hascending⟩ := List.pairwise_cons.mp hascending
      rcases decide_turn t groups candidates rest placed first with
        ⟨hplaced, heq⟩ | ⟨hlost, heq⟩ | ⟨group, decision, hfree, hgroup, hwalk, heq⟩
      · rw [heq]
        exact ih hrest hascending (hpassed.next (List.Subset.refl _) hplaced) hclosed
      · rw [heq]
        refine ih hrest hascending
          (hpassed.next (List.subset_cons_self _ _) List.mem_cons_self) ?_
        -- A group that cannot be placed starts nowhere.
        have halone : Closed groups candidates [first] := fun e id hstart hmem => by
          obtain rfl := List.mem_singleton.mp hmem
          obtain ⟨-, group, hgroup, hedge⟩ := mem_startingOn.mp hstart
          obtain ⟨tail, hroute⟩ := Route.currentEdge?_eq_some_iff.mp hedge
          exact absurd ⟨group, hgroup, by rw [hroute]; exact List.cons_ne_nil _ _⟩ hlost
        exact halone.append hclosed
      · rw [heq]
        have hlower : ∀ other ∈ candidates, other.index < first.index → other ∈ placed := by
          intro other hother hlt
          refine (hpassed other hother).resolve_right fun hmem => ?_
          rcases List.mem_cons.mp hmem with rfl | hmem
          · exact Nat.lt_irrefl _ hlt
          · exact Nat.lt_asymm hlt (hahead other hmem)
        obtain ⟨hstay, hmade⟩ := h.walk hfirst hfree hlower hclosed hgroup hwalk
        have hin : first ∈ decision.groups := mem_of_walk hfirst hfree hgroup hwalk
        have hnext : Closed groups candidates (first :: (decision.groups ++ placed)) := by
          intro e id hstart hmem
          refine List.subset_cons_of_subset _ (hmade.append hclosed e id hstart ?_)
          rcases List.mem_cons.mp hmem with rfl | hmem
          · exact List.mem_append_left _ hin
          · exact hmem
        rintro later hmem
        rcases List.mem_cons.mp hmem with rfl | hmem
        · exact hstay
        · exact ih hrest hascending
            (hpassed.next (fun id hid => by simp [hid]) List.mem_cons_self) hnext later hmem

end Plan

/-- If the candidates are settled, each is placed where its way ahead begins. -/
theorem Plan.Settled.head?_eq {α : Type} [Quantity α] {t : Topology α} {groups : List Group}
    {candidates : List GroupId} (h : Settled t groups (inOrder candidates)) {decision : Decision}
    (hdecision : decision ∈ plan t groups candidates) {id : GroupId}
    (hid : id ∈ decision.groups) :
    ∃ group, groups[id.index]? = some group ∧
      group.route.ahead.head? = some decision.node :=
  h.decide (List.Subset.refl _) (ascending_inOrder candidates) (fun _ hmem => .inr hmem)
    (fun _ _ _ hmem => by cases hmem) decision hdecision id hid

end StreamPlacement
