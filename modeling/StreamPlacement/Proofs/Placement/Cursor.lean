import StreamPlacement.Proofs.Backhaul.RouteCursor
import StreamPlacement.Proofs.Placement.Partition
import StreamPlacement.Proofs.Placement.Run

/-!
Plans by cursor.

The walk of a plan goes along the hops that a group has ahead. Taken with the cursor of the route it
is a loop: look at the hop under the cursor and, unless the group is placed there, go one hop
forward. On the last hop the cursor no longer moves, so it is not the cursor alone that ends the
loop: a turn goes on only where another hop follows, and then one hop less is ahead.

Nothing is asked of the routes but that their cursors are on them, and nothing at all of the
candidates.
-/

namespace StreamPlacement

namespace Plan

variable {α : Type} [Quantity α]

/-! ### Turns of a walk -/

/-- What one look at the hop under the cursor leads to. -/
inductive Turn
  | over (outcome : Option Decision)
  | onward (route : Route)

/-- One turn of the walk for a group: the hop under the cursor is where it is placed, or the cursor
goes on. -/
def turn (t : Topology α) (groups : List Group) (candidates placed : List GroupId) (id : GroupId)
    (route : Route) : Turn :=
  match route.here?, route.next? with
  | none, _ => .over none
  | some last, none => .over (some ⟨last, [id], .exhausted⟩)
  | some u, some v =>
    let together := sharing groups candidates placed (u, v)
    if !together.isEmpty && fits t groups together (u, v) then
      .over (some ⟨u, together, .coLocated (u, v)⟩)
    else .onward route.advance

/-- The outcome of the walk, if it is over after some turns. -/
def turns (t : Topology α) (groups : List Group) (candidates placed : List GroupId)
    (id : GroupId) : Nat → Route → Option (Option Decision)
  | 0, _ => none
  | n + 1, route =>
    match turn t groups candidates placed id route with
    | .over outcome => some outcome
    | .onward route => turns t groups candidates placed id n route

variable {t : Topology α} {groups : List Group} {candidates placed : List GroupId} {id : GroupId}
  {route : Route}

/-- A turn ends the walk with its outcome, or leaves the walk over one hop less. -/
theorem turn_cases (t : Topology α) (groups : List Group) (candidates placed : List GroupId)
    (id : GroupId) (route : Route) :
    turn t groups candidates placed id route =
        .over (walk t groups candidates placed id route.ahead) ∨
      ∃ further, turn t groups candidates placed id route = .onward further ∧
        further.ahead.length < route.ahead.length ∧
        walk t groups candidates placed id further.ahead =
          walk t groups candidates placed id route.ahead := by
  simp only [turn]
  cases hhere : route.here? with
  | none => exact .inl (by rw [Route.ahead_eq_nil hhere, walk])
  | some u =>
      cases hnext : route.next? with
      | none => exact .inl (by rw [Route.ahead_eq_singleton hhere hnext, walk])
      | some v =>
          obtain ⟨rest, hahead, hfurther⟩ := Route.ahead_eq_cons hhere hnext
          dsimp only
          split
          · next hroom => exact .inl (by rw [hahead, walk, if_pos hroom])
          · next hfull =>
              refine .inr ⟨_, rfl, ?_, ?_⟩
              · rw [hahead, hfurther]
                exact Nat.lt_succ_self _
              · rw [hahead, hfurther, walk, if_neg hfull]

/-- With one turn more than there are hops ahead, the walk is over. -/
theorem turns_eq_walk {n : Nat} (h : route.ahead.length < n) :
    turns t groups candidates placed id n route =
      some (walk t groups candidates placed id route.ahead) := by
  induction n generalizing route with
  | zero => exact absurd h (Nat.not_lt_zero _)
  | succ n ih =>
      rw [turns]
      rcases turn_cases t groups candidates placed id route with
        hover | ⟨further, honward, hless, hsame⟩
      · rw [hover]
      · rw [honward, ← hsame]
        exact ih (Nat.lt_of_lt_of_le hless (Nat.le_of_lt_succ h))

/-! ### Candidates as a set -/

/-- Only which candidates there are makes a difference, not their order or how often they occur. -/
theorem inOrder_congr {candidates' : List GroupId}
    (h : ∀ id, id ∈ candidates' ↔ id ∈ candidates) : inOrder candidates' = inOrder candidates := by
  have hperm : (inOrder candidates').Perm (inOrder candidates) := by
    refine (List.perm_ext_iff_of_nodup (nodup_inOrder _) (nodup_inOrder _)).mpr fun id => ?_
    rw [mem_inOrder, mem_inOrder, h]
  refine hperm.eq_of_pairwise (fun a b _ _ hab hba => ?_) (ascending_inOrder _)
    (ascending_inOrder _)
  exact absurd hab (Nat.lt_asymm hba)

end Plan

/-! ### Plans -/

variable {α : Type} [Quantity α]

theorem Plan.placeable_iff {groups : List Group} (hvalid : ∀ group ∈ groups, group.route.Valid)
    {id : GroupId} : Plan.Placeable groups id ↔
      ∃ group, groups[id.index]? = some group ∧ group.route.hops ≠ [] := by
  refine exists_congr fun group => and_congr_right fun hgroup => not_congr ?_
  exact (hvalid group (List.mem_of_getElem? hgroup)).ahead_eq_nil_iff

/-- Only candidates that can be placed are. -/
theorem placeable_of_mem_plan {t : Topology α} {groups : List Group} {candidates : List GroupId}
    {decision : Decision} (h : decision ∈ plan t groups candidates) {id : GroupId}
    (hid : id ∈ decision.groups) : Plan.Placeable groups id := by
  obtain ⟨group, hgroup, hsuits⟩ := ((sound_plan t groups candidates).1 decision h).suits id hid
  refine ⟨group, hgroup, fun hnone => ?_⟩
  rw [Decision.Suits, hnone] at hsuits
  split at hsuits
  · exact List.not_mem_nil hsuits.2
  · cases hsuits

/-- A plan for any groups and candidates is found, every walk within a turn for each hop of the
route and one more. It places every candidate that is known and has a route, once and in one
decision, and nobody else; it serves groups from the near end of an edge that all of them have
ahead, or a single group from where its route ends; and it depends on nothing but which the
candidates are. -/
theorem plan_partitions (t : Topology α) (groups : List Group) (candidates : List GroupId)
    (hvalid : ∀ group ∈ groups, group.route.Valid) :
    let decisions := plan t groups candidates
    (∀ group ∈ groups, ∀ placed id,
      Plan.turns t groups (Plan.inOrder candidates) placed id (group.route.length + 1) group.route =
        some (Plan.walk t groups (Plan.inOrder candidates) placed id group.route.ahead)) ∧
    (decisions.flatMap Decision.groups).Nodup ∧
    (∀ id, (∃ decision ∈ decisions, id ∈ decision.groups) ↔
      id ∈ candidates ∧ ∃ group, groups[id.index]? = some group ∧ group.route.hops ≠ []) ∧
    (∀ decision ∈ decisions, ∀ e, decision.reason = .coLocated e →
      decision.node = e.1 ∧ ∀ id ∈ decision.groups, ∃ group, groups[id.index]? = some group ∧
        ∃ i, group.route.cursor ≤ i ∧
          group.route.hops[i]? = some e.1 ∧ group.route.hops[i + 1]? = some e.2) ∧
    (∀ decision ∈ decisions, decision.reason = .exhausted →
      ∃ id group, decision.groups = [id] ∧ groups[id.index]? = some group ∧
        group.route.last? = some decision.node) ∧
    ∀ candidates', (∀ id, id ∈ candidates' ↔ id ∈ candidates) →
      plan t groups candidates' = decisions := by
  obtain ⟨hsound, hnodup⟩ := sound_plan t groups candidates
  refine ⟨?_, hnodup, ?_, ?_, ?_, ?_⟩
  · intro group _ placed id
    exact Plan.turns_eq_walk (Nat.lt_succ_of_le group.route.length_ahead_le)
  · intro id
    rw [← Plan.placeable_iff hvalid]
    constructor
    · rintro ⟨decision, hdecision, hid⟩
      exact ⟨subset_of_mem_plan hdecision hid, placeable_of_mem_plan hdecision hid⟩
    · rintro ⟨hid, hplaceable⟩
      exact exists_mem_plan hid hplaceable
  · intro decision hdecision e hreason
    have hsuits : ∀ id ∈ decision.groups, ∃ group, groups[id.index]? = some group ∧
        decision.node = e.1 ∧ e ∈ edgesOf group.route.ahead := by
      intro id hid
      obtain ⟨group, hgroup, hsuits⟩ := (hsound decision hdecision).suits id hid
      rw [Decision.Suits, hreason] at hsuits
      exact ⟨group, hgroup, hsuits⟩
    obtain ⟨id, hid⟩ := List.exists_mem_of_ne_nil _ (ne_nil_of_mem_plan hdecision)
    obtain ⟨-, -, hnode, -⟩ := hsuits id hid
    refine ⟨hnode, fun id hid => ?_⟩
    obtain ⟨group, hgroup, -, he⟩ := hsuits id hid
    exact ⟨group, hgroup, Route.mem_edgesOf_ahead.mp he⟩
  · intro decision hdecision hreason
    obtain ⟨id, -, placed, -, group, hgroup, hwalk⟩ := Plan.walk_of_mem_decide hdecision
    rcases Plan.walk_cases hwalk with ⟨last, hlast, rfl⟩ | ⟨e, -, rfl, -⟩
    · have hahead : group.route.ahead ≠ [] := by
        intro hnone
        rw [hnone] at hlast
        cases hlast
      exact ⟨id, group, rfl, hgroup, (Route.getLast?_ahead hahead).symm.trans hlast⟩
    · cases hreason
  · intro candidates' hsame
    rw [plan, plan, Plan.inOrder_congr hsame]

/-- A viewer with a route of any kind. -/
def Deployment.line.stray (i : Nat) (hops : List NodeId) (cursor : Nat) : Group where
  id := ⟨i⟩
  key := ⟨"", some ⟨i⟩⟩
  accessPoint := ⟨2⟩
  requested := ⟨0⟩
  content := ⟨i⟩
  viewers := [{ user := ⟨i⟩, address := "", content := ⟨i⟩ }]
  server := ⟨0⟩
  serverAddress := ""
  route := ⟨hops, cursor⟩

/-- One has its first hop behind it, one comes back to where it started, and one has no route. -/
def Deployment.line.strays : List Group :=
  [stray 0 [⟨0⟩, ⟨1⟩, ⟨2⟩] 1, stray 1 [⟨0⟩, ⟨1⟩, ⟨0⟩, ⟨1⟩, ⟨2⟩] 2, stray 2 [] 0]

/-- Of five candidates one is named twice, one is unknown and one has no route; the other two are
placed. -/
theorem plan_partitions_strays :
    let candidates : List GroupId := [⟨1⟩, ⟨0⟩, ⟨5⟩, ⟨1⟩, ⟨2⟩]
    let decisions := plan Deployment.line.topology Deployment.line.strays candidates
    (∀ group ∈ Deployment.line.strays, group.route.Valid) ∧
      (∃ decision ∈ decisions, ⟨1⟩ ∈ decision.groups) ∧
      (¬ ∃ decision ∈ decisions, ⟨2⟩ ∈ decision.groups) ∧
      plan Deployment.line.topology Deployment.line.strays [⟨0⟩, ⟨1⟩, ⟨2⟩, ⟨5⟩] = decisions := by
  intro candidates decisions
  have hvalid : ∀ group ∈ Deployment.line.strays, group.route.Valid := by decide
  obtain ⟨-, -, hmem, -, -, hset⟩ :=
    plan_partitions Deployment.line.topology Deployment.line.strays candidates hvalid
  refine ⟨hvalid, ?_, ?_, ?_⟩
  · rw [hmem]
    exact ⟨by decide, _, rfl, by decide⟩
  · rw [hmem]
    rintro ⟨-, group, hgroup, hroute⟩
    obtain rfl := Option.some.inj hgroup
    exact hroute rfl
  · refine hset _ fun id => ?_
    simp only [candidates, List.mem_cons, List.not_mem_nil, or_false]
    tauto

end StreamPlacement
