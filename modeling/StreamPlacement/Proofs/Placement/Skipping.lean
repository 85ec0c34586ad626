import StreamPlacement.Proofs.Cache.ServerPool
import StreamPlacement.Proofs.Placement.Operations

/-!
What a skipped assignment leaves behind.

An assignment is looked at before anything is changed, with one exception: whether a route leads
from the new server to the group is found out last. Where there is none, the server has taken the
content on and the group has given its booking back by then. Every other skip is without effect.
-/

namespace StreamPlacement

variable {α : Type} [Quantity α] {d : Deployment α}

/-- How a group is placed. -/
def Group.placing (group : Group) : Route × NodeId × Option Booking :=
  (group.route, group.server, group.booking)

namespace Placement

variable {p q : Placement α}

/-- The placement is the same: how every group is placed, what is booked, where viewers are sent,
and what the servers hold. -/
structure SamePlacement (p q : Placement α) : Prop where
  groups : ∀ id, (q.registry.group? id).map Group.placing = (p.registry.group? id).map Group.placing
  loads : ∀ e, q.topology.load e = p.topology.load e
  directory : q.directory = p.directory
  contents : ∀ node, q.servers.contentsAt node = p.servers.contentsAt node

/-- The state in the midst of an answer, with some of its assignments applied. -/
def midway (p : Placement α) (answer : Solver.Answer) (before : List Solver.Assignment) :
    Placement α :=
  ((p.awaited answer).assignAll { request := answer.request } before).1

theorem samePlacement_of_servers {servers : ServerPool}
    (h : ∀ node, servers.contentsAt node = p.servers.contentsAt node) :
    SamePlacement p { p with servers } :=
  ⟨fun _ => rfl, fun _ => rfl, rfl, h⟩

theorem Coherent.route_error (h : Coherent d p) {id : GroupId} {group : Group}
    (hgroup : p.registry.group? id = some group) {node : NodeId}
    (hnode : p.topology.contains node = true) {fault : Fault}
    (hfault : d.topology.route node group.accessPoint = .error fault) :
    fault = .noRoute node group.accessPoint := by
  have hdest := (Topology.inside_of_route (h.served hgroup).routed).2
  have hsource : node.index < d.topology.size := by
    rw [← h.network.size_eq]
    exact Topology.contains_iff.mp hnode
  rcases d.wired.route_cases hsource hdest with ⟨hops, -, hroute⟩ | ⟨-, hroute⟩
  · rw [hroute] at hfault
    cases hfault
  · rw [hroute] at hfault
    exact (Except.error.inj hfault).symm

/-- A skipped assignment has made servers known at most, or has found no route after the server has
taken the content on and the booking was given back. -/
theorem Coherent.assign_skipped (h : Coherent d p) {assignment : Solver.Assignment} {reason : Skip}
    (hskip : p.assign assignment = (q, .error reason)) :
    (SamePlacement p q ∧
        ∀ dest, reason ≠ .failed (.noRoute ⟨assignment.server⟩ dest)) ∨
      ∃ group address servers, p.registry.group? ⟨assignment.group⟩ = some group ∧
        reason = .failed (.noRoute ⟨assignment.server⟩ group.accessPoint) ∧
        (p.servers.ensure ⟨assignment.server⟩ address).take? ⟨assignment.server⟩ group.content =
          some servers ∧
        q = { p with servers }.releaseBooking ⟨assignment.group⟩ := by
  rcases p.assign_cases assignment with
    ⟨servers, _, heq, hservers, hfailed⟩ |
      ⟨group, address, servers, ⟨hgroup, hcontains, haddress⟩, htake, heq⟩
  · rw [heq] at hskip
    cases hskip
    refine .inl ⟨samePlacement_of_servers fun node => ?_, fun dest hreason => ?_⟩
    · rcases hservers with rfl | ⟨address, rfl⟩
      · rfl
      · exact ServerPool.contentsAt_ensure ..
    · -- A missing address is reported as an unknown node.
      have hfault := hfailed _ hreason
      rw [AddressBook.nodeAddress] at hfault
      split at hfault <;> cases hfault
  · have hknown : Coherent d { p with servers } :=
      (h.change (.aside p servers p.strategy p.tally p.requests p.pending)).1
    rcases hknown.rehome_cases hgroup ⟨assignment.server⟩
        (fun p => (p.registry.group? ⟨assignment.group⟩).bind (·.route.currentEdge?)) with
      ⟨fault, hrehome, hfault⟩ | ⟨_, _, _, -, -, hrehome⟩
    · rw [heq, hrehome] at hskip
      cases hskip
      rw [← h.book_eq, haddress] at hfault
      obtain rfl := h.route_error hgroup hcontains (hfault.resolve_left (by simp))
      exact .inr ⟨group, address, servers, hgroup, rfl, htake, rfl⟩
    · rw [heq, hrehome] at hskip
      cases hskip

/-- Where no route was found, the placement is the same only if nothing was booked and the server
had the content before. -/
theorem samePlacement_releaseBooking_iff {id : GroupId} {group : Group} {node : NodeId}
    {address : Address} {servers : ServerPool} (hgroup : p.registry.group? id = some group)
    (htake : (p.servers.ensure node address).take? node group.content = some servers) :
    SamePlacement p ({ p with servers }.releaseBooking id) ↔
      group.booking = none ∧ p.servers.hosts node group.content = true := by
  have hgroup' : { p with servers }.registry.group? id = some group := hgroup
  have hensure := ServerPool.hosts_ensure p.servers node address node group.content
  constructor
  · intro hsame
    constructor
    · have hplaced := hsame.groups id
      rw [group?_releaseBooking hgroup', hgroup] at hplaced
      have hbooking := congrArg (fun placing => placing.2.2) (Option.some.inj hplaced)
      exact hbooking.symm
    · by_contra hlacking
      have hlacking' := hensure.trans (by simpa using hlacking)
      apply ServerPool.contentsAt_take?_ne htake hlacking'
      rw [ServerPool.contentsAt_ensure, ← hsame.contents node, servers_releaseBooking]
  · rintro ⟨hfree, hhosts⟩
    rw [releaseBooking_of_free hgroup' hfree]
    refine samePlacement_of_servers fun node' => ?_
    rw [ServerPool.contentsAt_take?_of_hosts htake (hensure.trans hhosts)]
    exact ServerPool.contentsAt_ensure ..

/-- The assignments of an answer are applied one after the other. -/
theorem midway_concat (p : Placement α) (answer : Solver.Answer)
    (before : List Solver.Assignment) (assignment : Solver.Assignment) :
    p.midway answer (before ++ [assignment]) = ((p.midway answer before).assign assignment).1 := by
  have happend : ∀ completion, (p.awaited answer).assignAll completion (before ++ [assignment]) =
      ((p.awaited answer).assignAll completion before).1.assignAll
        ((p.awaited answer).assignAll completion before).2 [assignment] := fun completion =>
    List.foldl_append
  rw [midway, happend, assignAll_cons]
  rfl

theorem Coherent.midway (h : Coherent d p) (answer : Solver.Answer)
    (before : List Solver.Assignment) : Coherent d (p.midway answer before) := by
  have hawaited : Changes d p (p.awaited answer) := .single (.aside _ _ _ _ _ _)
  have hcoherent := (h.changes hawaited).1
  exact (hcoherent.changes (hcoherent.changes_assignAll _ before)).1

theorem complete_eq_midway {answer : Solver.Answer} (hpending : answer.request ∈ p.pending) :
    ∃ tally, (p.complete answer).1 = { p.midway answer answer.assignments with tally } := by
  rw [complete_of_pending hpending]
  exact ⟨_, rfl⟩

end Placement

namespace Deployment

/-- The assignments of an awaited answer are applied in turn. A skipped one leaves the placement
the same unless it was skipped for want of a route; and then it does so exactly if the group had no
booking to give back and the server had its content before. -/
theorem skip_after (d : Deployment α) (ops : List Operation) {answer : Solver.Answer}
    (hpending : answer.request ∈ (d.after ops).pending) :
    (∃ tally, ((d.after ops).complete answer).1 =
      { (d.after ops).midway answer answer.assignments with tally }) ∧
    ∀ before assignment later next reason,
      answer.assignments = before ++ assignment :: later →
      ((d.after ops).midway answer before).assign assignment = (next, .error reason) →
      (d.after ops).midway answer (before ++ [assignment]) = next ∧
      (Placement.SamePlacement ((d.after ops).midway answer before) next ↔
        ∀ group, ((d.after ops).midway answer before).registry.group? ⟨assignment.group⟩ =
            some group →
          reason = .failed (.noRoute ⟨assignment.server⟩ group.accessPoint) →
          group.booking = none ∧
            ((d.after ops).midway answer before).servers.hosts ⟨assignment.server⟩
              group.content = true) := by
  refine ⟨Placement.complete_eq_midway hpending, ?_⟩
  intro before assignment later next reason _ hskip
  have hcoherent := (d.coherent_after ops).midway answer before
  refine ⟨by rw [Placement.midway_concat, hskip], ?_⟩
  rcases hcoherent.assign_skipped hskip with
    ⟨hsame, hreason⟩ | ⟨group, address, servers, hgroup, rfl, htake, rfl⟩
  · exact ⟨fun _ group _ heq => absurd heq (hreason _), fun _ => hsame⟩
  · rw [Placement.samePlacement_releaseBooking_iff hgroup htake]
    constructor
    · intro hcondition group' hgroup' _
      obtain rfl : group = group' := Option.some.inj (hgroup.symm.trans hgroup')
      exact hcondition
    · intro hcondition
      exact hcondition group hgroup rfl

/-- A viewer is let in on the line, and its link is handed to the solver. -/
def line.asked : List Operation := [.arrive ⟨2⟩ ⟨0⟩ ⟨7⟩ ⟨0⟩, .escalate (⟨0⟩, ⟨1⟩)]

/-- An answer that sends the group twice to the server that nothing is wired to. -/
def line.astray : Solver.Answer := { request := 0, assignments := [⟨0, 3⟩, ⟨0, 3⟩] }

/-- The first time the group loses its booking and the server takes the content on, although the
assignment is skipped. -/
theorem skip_spoils_line :
    0 ∈ (line.after line.asked).pending ∧
      ∃ next, ((line.after line.asked).midway line.astray []).assign ⟨0, 3⟩ =
          (next, .error (.failed (.noRoute ⟨3⟩ ⟨2⟩))) ∧
        ¬ Placement.SamePlacement ((line.after line.asked).midway line.astray []) next := by
  have hskip : (((line.after line.asked).midway line.astray []).assign ⟨0, 3⟩).2 =
      .error (.failed (.noRoute ⟨3⟩ ⟨2⟩)) := by decide +kernel
  have hspoiled :
      ((((line.after line.asked).midway line.astray []).assign ⟨0, 3⟩).1.registry.group? ⟨0⟩).map
          Group.placing ≠
        (((line.after line.asked).midway line.astray []).registry.group? ⟨0⟩).map
          Group.placing := by decide +kernel
  exact ⟨by decide +kernel, _, Prod.ext rfl hskip, fun hsame => hspoiled (hsame.groups ⟨0⟩)⟩

/-- The second time there is nothing left to lose. -/
theorem skip_spares_line :
    Placement.SamePlacement ((line.after line.asked).midway line.astray [⟨0, 3⟩])
      ((line.after line.asked).midway line.astray [⟨0, 3⟩, ⟨0, 3⟩]) := by
  have hpending : line.astray.request ∈ (line.after line.asked).pending := by decide +kernel
  obtain ⟨-, hskips⟩ := skip_after line line.asked hpending
  have hskip : (((line.after line.asked).midway line.astray [⟨0, 3⟩]).assign ⟨0, 3⟩).2 =
      .error (.failed (.noRoute ⟨3⟩ ⟨2⟩)) := by decide +kernel
  obtain ⟨hnext, hsame⟩ := hskips [⟨0, 3⟩] ⟨0, 3⟩ [] _ _ rfl (Prod.ext rfl hskip)
  have hgroup : (((line.after line.asked).midway line.astray [⟨0, 3⟩]).registry.group? ⟨0⟩).map
      (fun group => (group.booking, group.content)) = some (none, ⟨7⟩) := by decide +kernel
  have hhosts : ((line.after line.asked).midway line.astray [⟨0, 3⟩]).servers.hosts ⟨3⟩ ⟨7⟩ =
      true := by decide +kernel
  have hlast : (line.after line.asked).midway line.astray [⟨0, 3⟩, ⟨0, 3⟩] = _ := hnext
  rw [hlast, hsame]
  intro group hpresent _
  rw [hpresent] at hgroup
  obtain ⟨hfree, hcontent⟩ := Prod.mk.inj (Option.some.inj hgroup)
  rw [hcontent]
  exact ⟨hfree, hhosts⟩

end Deployment

end StreamPlacement
