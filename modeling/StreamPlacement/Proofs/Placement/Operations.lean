import StreamPlacement.Proofs.Backhaul.RouteCursor
import StreamPlacement.Proofs.Placement.Plan
import StreamPlacement.Proofs.Placement.Rehoming

/-!
Every operation is a sequence of changes, and so is every run.

The one step with an argument of its own is the greedy reaction. It books the edge that the plan has
chosen, and what is needed is the first hop of the route that the group gets. They agree because a
route from a hop of another route is the rest of it, and because no group is moved twice by one
plan, so that the routes the plan was made for are still there when it is carried out.
-/

namespace StreamPlacement

variable {α : Type} [Quantity α] {d : Deployment α}

/-- If the group can be served from `node`, then over `edge` first. -/
def Deployment.Leads (d : Deployment α) (node : NodeId) (edge : Option Edge) (group : Group) :
    Prop :=
  ∀ route, d.topology.route node group.accessPoint = .ok route → route.currentEdge? = edge

theorem mem_edgesOf {u v : NodeId} {hops : List NodeId} (h : (u, v) ∈ edgesOf hops) :
    ∃ before rest, hops = before ++ u :: v :: rest := by
  induction hops with
  | nil => cases h
  | cons w tail ih =>
      cases tail with
      | nil => cases h
      | cons x tail =>
          simp only [edgesOf, List.tail_cons, List.zip_cons_cons, List.mem_cons] at h ih
          rcases h with heq | h
          · cases heq
            exact ⟨[], tail, rfl⟩
          · obtain ⟨before, rest, heq⟩ := ih h
            exact ⟨w :: before, rest, by rw [heq, List.cons_append]⟩

theorem Deployment.Serves.best {group : Group} (h : d.Serves group) :
    d.topology.Best group.server group.accessPoint group.route.hops := by
  obtain ⟨-, -, hbest, -⟩ := d.wired.route_eq_ok_iff.mp h.routed
  exact hbest

theorem Deployment.Serves.walk {group : Group} (h : d.Serves group) :
    d.topology.Walk group.server group.accessPoint group.route.hops := h.best.walk

/-- The cursor of a route never leaves its start. -/
theorem Deployment.Serves.cursor_eq {group : Group} (h : d.Serves group) :
    group.route.cursor = 0 := by
  obtain ⟨-, -, -, hcursor⟩ := d.wired.route_eq_ok_iff.mp h.routed
  exact hcursor

theorem Deployment.Serves.ahead_eq {group : Group} (h : d.Serves group) :
    group.route.ahead = group.route.hops := Route.ahead_eq_hops h.cursor_eq

/-- The cursor of a group that is served is on the first hop of its route. -/
theorem Deployment.Serves.currentEdge?_eq {group : Group} (h : d.Serves group) :
    group.route.currentEdge? = group.route.edges.head? := Route.currentEdge?_eq_head? h.cursor_eq

/-- The node of a decision is a hop of each of its groups, and the edge that is booked leads on from
there. -/
theorem Decision.Suits.splits {decision : Decision} {group : Group} (h : decision.Suits group)
    (hserves : d.Serves group) :
    ∃ before rest, group.route.hops = before ++ decision.node :: rest ∧
      (Route.ofHops (decision.node :: rest)).currentEdge? = decision.reason.edge? := by
  rw [Decision.Suits, hserves.ahead_eq] at h
  cases hreason : decision.reason with
  | coLocated e =>
      rw [hreason] at h
      obtain ⟨hnode, hedge⟩ := h
      obtain ⟨before, rest, hhops⟩ := mem_edgesOf hedge
      exact ⟨before, e.2 :: rest, by rw [hnode, hhops], by rw [hnode]; rfl⟩
  | exhausted =>
      rw [hreason] at h
      obtain ⟨before, hhops⟩ := List.getLast?_eq_some_iff.mp h
      exact ⟨before, [], hhops, rfl⟩

/-- The edge that a decision books is the first hop of the route that it leads to. -/
theorem Decision.Suits.leads {decision : Decision} {group : Group} (h : decision.Suits group)
    (hserves : d.Serves group) : d.Leads decision.node decision.reason.edge? group := by
  intro route hroute
  obtain ⟨before, rest, hhops, hedge⟩ := h.splits hserves
  rw [d.wired.route_suffix hserves.routed hhops] at hroute
  obtain rfl := Except.ok.inj hroute
  exact hedge

/-- The route from the node of a decision is what remains of the route of the group from there. -/
theorem Decision.Suits.suffix {decision : Decision} {group : Group} (h : decision.Suits group)
    (hserves : d.Serves group) {route : Route}
    (hroute : d.topology.route decision.node group.accessPoint = .ok route) :
    route.hops <:+ group.route.hops := by
  obtain ⟨before, rest, hhops, -⟩ := h.splits hserves
  obtain rfl := Except.ok.inj (hroute.symm.trans (d.wired.route_suffix hserves.routed hhops))
  exact ⟨before, hhops.symm⟩

namespace Placement

variable {p q : Placement α}

/-! ### The greedy reaction -/

theorem Coherent.changes_rehomeAll (h : Coherent d p) {node : NodeId} {edge : Option Edge}
    {ids : List GroupId} (hnodup : ids.Nodup)
    (hleads : ∀ id ∈ ids, ∀ group, p.registry.group? id = some group → d.Leads node edge group) :
    Changes d p (rehomeAll node edge ids p).1 ∧
      ∀ id, id ∉ ids → (rehomeAll node edge ids p).1.registry.group? id = p.registry.group? id := by
  induction ids generalizing p with
  | nil => exact ⟨.refl, fun _ _ => rfl⟩
  | cons id rest ih =>
      obtain ⟨hid, hrest⟩ := List.nodup_cons.mp hnodup
      have hfirst : Changes d p (p.rehome id node fun _ => edge).1 := by
        refine h.changes_rehome fun moved group served hgroup _ hsame hroute => ?_
        rw [hsame] at hroute
        exact (hleads id List.mem_cons_self group hgroup _ hroute).symm
      have hother : ∀ id', id ≠ id' →
          (p.rehome id node fun _ => edge).1.registry.group? id' = p.registry.group? id' :=
        fun id' hne => h.group?_rehome_of_ne hne node _
      unfold rehomeAll
      split
      · next next fault heq =>
          rw [heq] at hfirst hother
          exact ⟨hfirst, fun id' hnot => hother id' (List.ne_of_not_mem_cons hnot).symm⟩
      · next next relocation heq =>
          rw [heq] at hfirst hother
          obtain ⟨hmore, hmoreOther⟩ := ih (h.changes hfirst).1 hrest
            fun id' hmem group hgroup => by
              have hne : id ≠ id' := fun heq => hid (heq ▸ hmem)
              rw [hother id' hne] at hgroup
              exact hleads id' (List.mem_cons_of_mem _ hmem) group hgroup
          refine ⟨hfirst.trans hmore, fun id' hnot => ?_⟩
          obtain ⟨hne, hnot⟩ := List.ne_and_not_mem_of_not_mem_cons hnot
          exact (hmoreOther id' hnot).trans (hother id' hne.symm)

theorem Coherent.changes_carryOut (h : Coherent d p) {decision : Decision}
    (hnodup : decision.groups.Nodup)
    (hsuits : ∀ id ∈ decision.groups, ∀ group, p.registry.group? id = some group →
      decision.Suits group) :
    Changes d p (p.carryOut decision).1 ∧
      ∀ id, id ∉ decision.groups →
        (p.carryOut decision).1.registry.group? id = p.registry.group? id := by
  obtain ⟨hchanges, hother⟩ := h.changes_rehomeAll hnodup fun id hmem group hgroup =>
    (hsuits id hmem group hgroup).leads (h.served hgroup)
  unfold carryOut
  split
  · next heq =>
      rw [heq] at hchanges hother
      exact ⟨hchanges, hother⟩
  · next heq =>
      rw [heq] at hchanges hother
      split
      · exact ⟨hchanges, hother⟩
      · exact ⟨hchanges.tail (.aside _ _ _ _ _ _), hother⟩

theorem Coherent.changes_carryOutAll (h : Coherent d p) {decisions : List Decision}
    (hnodup : (decisions.flatMap Decision.groups).Nodup)
    (hsuits : ∀ decision ∈ decisions, ∀ id ∈ decision.groups, ∀ group,
      p.registry.group? id = some group → decision.Suits group) :
    Changes d p (carryOutAll decisions p).1 := by
  induction decisions generalizing p with
  | nil => exact .refl
  | cons decision rest ih =>
      rw [List.flatMap_cons, List.nodup_append] at hnodup
      obtain ⟨hfirstNodup, hrestNodup, hapart⟩ := hnodup
      obtain ⟨hfirst, hother⟩ := h.changes_carryOut hfirstNodup (hsuits _ List.mem_cons_self)
      unfold carryOutAll
      split
      · next heq =>
          rw [heq] at hfirst
          exact hfirst
      · next heq =>
          rw [heq] at hfirst hother
          refine hfirst.trans (ih (h.changes hfirst).1 hrestNodup ?_)
          intro later hlater id hmem group hgroup
          -- The groups of later decisions are still as the plan has seen them.
          have hnot : id ∉ decision.groups := fun hin =>
            hapart id hin id (List.mem_flatMap.mpr ⟨later, hlater, hmem⟩) rfl
          rw [hother id hnot] at hgroup
          exact hsuits later (List.mem_cons_of_mem _ hlater) id hmem group hgroup

theorem Coherent.changes_reallocate (h : Coherent d p) (candidates : List GroupId) :
    Changes d p (p.reallocate candidates).1 := by
  obtain ⟨hsound, hnodup⟩ := sound_plan p.topology p.registry.groups candidates
  exact h.changes_carryOutAll hnodup fun decision hdecision id hmem group hgroup =>
    (hsound decision hdecision).suits_of hmem hgroup

theorem Coherent.changes_relieve (h : Coherent d p) (e : Edge) : Changes d p (p.relieve e).1 := by
  have hclear : Changes d p (p.clearEdge e) := .single (.clear p e)
  exact hclear.trans ((h.changes hclear).1.changes_reallocate _)

/-! ### The solver -/

omit [Quantity α] in
/-- All that comes of a link that is handed to the solver: it is counted, and a request with all
groups is kept and awaited. -/
theorem escalate_eq {e : Edge} {request : Solver.RequestId}
    (h : p.escalate e = .ok (request, q)) :
    ∃ asked : Solver.Request, asked.roster = p.roster ∧
      q = { p with
        tally := { p.tally with
          congestionEvents := p.tally.congestionEvents + 1
          escalationsSubmitted := p.tally.escalationsSubmitted + 1 }
        requests := p.requests.push asked
        pending := p.pending ++ [p.requests.size] } := by
  unfold Placement.escalate at h
  split at h <;> cases h
  exact ⟨_, rfl, rfl⟩

theorem changes_escalate {e : Edge} {request : Solver.RequestId}
    (h : p.escalate e = .ok (request, q)) : Changes d p q := by
  obtain ⟨_, -, rfl⟩ := escalate_eq h
  exact .single (.aside _ _ _ _ _ _)

/-- All that an assignment can do: it makes a server known at most and is skipped, which is a
failure only where the node has no address; or its group is re-homed once the server at the node has
taken its content on. -/
theorem assign_cases (p : Placement α) (assignment : Solver.Assignment) :
    (∃ servers reason, p.assign assignment = ({ p with servers }, .error reason) ∧
        (servers = p.servers ∨
          ∃ address, servers = p.servers.ensure ⟨assignment.server⟩ address) ∧
        ∀ fault, reason = .failed fault →
          p.book.nodeAddress ⟨assignment.server⟩ = .error fault) ∨
      ∃ group address servers,
        (p.registry.group? ⟨assignment.group⟩ = some group ∧
          p.topology.contains ⟨assignment.server⟩ = true ∧
          p.book.nodeAddress ⟨assignment.server⟩ = .ok address) ∧
        (p.servers.ensure ⟨assignment.server⟩ address).take? ⟨assignment.server⟩ group.content =
          some servers ∧
        let rehomed := { p with servers }.rehome ⟨assignment.group⟩ ⟨assignment.server⟩
          fun p => (p.registry.group? ⟨assignment.group⟩).bind (·.route.currentEdge?)
        p.assign assignment = (rehomed.1, rehomed.2.mapError .failed) := by
  simp only [assign]
  split
  · exact .inl ⟨p.servers, _, rfl, .inl rfl, nofun⟩
  next group hgroup =>
  split
  · exact .inl ⟨p.servers, _, rfl, .inl rfl, nofun⟩
  next hcontains =>
  have hknown : p.topology.contains ⟨assignment.server⟩ = true := by simpa using hcontains
  split
  · next fault hfault =>
      refine .inl ⟨p.servers, _, rfl, .inl rfl, fun fault' heq => ?_⟩
      obtain rfl := Skip.failed.inj heq
      exact hfault
  next address haddress =>
  split
  · exact .inl ⟨_, _, rfl, .inr ⟨address, rfl⟩, nofun⟩
  · next servers htake =>
      exact .inr ⟨group, address, servers, ⟨hgroup, hknown, haddress⟩, htake, rfl⟩

theorem Coherent.changes_assign (h : Coherent d p) (assignment : Solver.Assignment) :
    Changes d p (p.assign assignment).1 := by
  have haside : ∀ servers, Changes d p { p with servers } := fun servers =>
    .single (.aside _ _ _ _ _ _)
  rcases p.assign_cases assignment with ⟨servers, _, heq, -⟩ | ⟨_, _, servers, -, -, heq⟩
  · rw [heq]
    exact haside servers
  · rw [heq]
    refine (haside servers).trans ((h.changes (haside servers)).1.changes_rehome ?_)
    intro moved group served _ hserved _ _
    rw [hserved, Option.bind_some]

theorem assignAll_cons (p : Placement α) (completion : Completion)
    (assignment : Solver.Assignment) (rest : List Solver.Assignment) :
    p.assignAll completion (assignment :: rest) =
      (p.assign assignment).1.assignAll
        (match (p.assign assignment).2 with
          | .ok relocation => completion.add relocation
          | .error reason => completion.skip reason) rest := by
  simp only [assignAll, List.foldl_cons]
  congr 1
  split <;> simp_all

theorem Coherent.changes_assignAll (h : Coherent d p) (completion : Completion)
    (assignments : List Solver.Assignment) :
    Changes d p (p.assignAll completion assignments).1 := by
  induction assignments generalizing p completion with
  | nil => exact .refl
  | cons assignment rest ih =>
      have hfirst := h.changes_assign assignment
      rw [assignAll_cons]
      exact hfirst.trans (ih (h.changes hfirst).1 _)

/-- The state in which an answer is about to be applied. -/
def awaited (p : Placement α) (answer : Solver.Answer) : Placement α :=
  { p with
    tally := { p.tally with escalationsCompleted := p.tally.escalationsCompleted + 1 }
    pending := p.pending.erase answer.request }

theorem complete_of_pending {answer : Solver.Answer} (hpending : answer.request ∈ p.pending) :
    p.complete answer =
      let applied :=
        (p.awaited answer).assignAll { request := answer.request } answer.assignments
      ({ applied.1 with
          tally := { applied.1.tally with
            assignmentsApplied := applied.1.tally.assignmentsApplied + applied.2.applied.length
            assignmentsSkipped := applied.1.tally.assignmentsSkipped + applied.2.skipped } },
        applied.2) := by
  rw [complete, if_pos (by simpa using hpending)]
  rfl

theorem complete_of_not_pending {answer : Solver.Answer} (hstray : answer.request ∉ p.pending) :
    p.complete answer = (p, { request := answer.request }) := by
  rw [complete, if_neg (by simpa using hstray)]

theorem Coherent.changes_complete (h : Coherent d p) (answer : Solver.Answer) :
    Changes d p (p.complete answer).1 := by
  by_cases hpending : answer.request ∈ p.pending
  · have hawaited : Changes d p (p.awaited answer) := .single (.aside _ _ _ _ _ _)
    have hassigned := (h.changes hawaited).1.changes_assignAll { request := answer.request }
      answer.assignments
    rw [complete_of_pending hpending]
    exact (hawaited.trans hassigned).tail (.aside _ _ _ _ _ _)
  · rw [complete_of_not_pending hpending]

/-! ### Operations and runs -/

theorem Coherent.changes_perform (h : Coherent d p) (op : Operation) :
    Changes d p (p.perform op) := by
  cases op with
  | arrive accessPoint requested content user =>
      simp only [perform]
      split
      · next harrive => exact (h.admitViewer harrive).1
      · exact .refl
  | react e =>
      simp only [perform, react]
      split
      · exact h.changes_relieve e
      · split
        · exact .refl
        · next hescalate => exact changes_escalate hescalate
  | relieve e => exact h.changes_relieve e
  | reallocate candidates => exact h.changes_reallocate candidates
  | escalate e =>
      simp only [perform]
      split
      · next hescalate => exact changes_escalate hescalate
      · exact .refl
  | complete answer => exact h.changes_complete answer
  | activate => exact .single (.aside _ _ _ _ _ _)
  | hangUp => exact .single (.aside _ _ _ _ _ _)

theorem Coherent.changes_run (h : Coherent d p) (ops : List Operation) :
    Changes d p (p.run ops) := by
  induction ops generalizing p with
  | nil => exact .refl
  | cons op rest ih =>
      have hfirst := h.changes_perform op
      exact hfirst.trans (ih (h.changes hfirst).1)

end Placement

theorem Deployment.changes_after (d : Deployment α) (ops : List Operation) :
    Placement.Changes d d.start (d.after ops) := (Placement.coherent_start d).changes_run ops

/-- Every state that a run reaches is coherent. -/
theorem Deployment.coherent_after (d : Deployment α) (ops : List Operation) :
    (d.after ops).Coherent d := ((Placement.coherent_start d).changes (d.changes_after ops)).1

end StreamPlacement
