import StreamPlacement.Proofs.Placement.Exchange
import StreamPlacement.Proofs.Placement.Relocation
import StreamPlacement.Proofs.Placement.Skipping

/-!
What an answer of the solver brings about, and what it leaves alone.

Assignments are applied one after the other, to a state that the ones before have changed. One that
is applied decides where its group is served, whatever was decided for it before; one that is skipped
decides nothing. So where a group ends up can be read off the list of what became of the
assignments: the last one that was applied to the group counts.
-/

namespace StreamPlacement

variable {α : Type} [Quantity α] {d : Deployment α}

namespace Placement

variable {p q : Placement α} {id : GroupId} {node : NodeId}

/-- What became of each assignment of a list, one after the other. -/
def outcomes (p : Placement α) :
    List Solver.Assignment → List (Solver.Assignment × Except Skip Relocation)
  | [] => []
  | assignment :: rest =>
    (assignment, (p.assign assignment).2) :: (p.assign assignment).1.outcomes rest

/-- The nodes that a group was sent to by assignments that were applied, in order. -/
def stations (id : GroupId) (outcomes : List (Solver.Assignment × Except Skip Relocation)) :
    List NodeId :=
  outcomes.filterMap fun (assignment, outcome) =>
    if assignment.group = id.index ∧ outcome.isOk then some ⟨assignment.server⟩ else none

theorem map_fst_outcomes (p : Placement α) (assignments : List Solver.Assignment) :
    (p.outcomes assignments).map Prod.fst = assignments := by
  induction assignments generalizing p with
  | nil => rfl
  | cons assignment rest ih => rw [outcomes, List.map_cons, ih]

/-! ### The report -/

/-- The report lists what was applied, in order, and counts the rest. -/
theorem assignAll_report (p : Placement α) (completion : Completion)
    (assignments : List Solver.Assignment) :
    let report := (p.assignAll completion assignments).2
    report.applied =
        completion.applied ++ (p.outcomes assignments).filterMap (·.2.toOption) ∧
      report.applied.length + report.skipped =
        completion.applied.length + completion.skipped + assignments.length := by
  induction assignments generalizing p completion with
  | nil => simp [assignAll, outcomes]
  | cons assignment rest ih =>
      rw [assignAll_cons, outcomes]
      cases houtcome : (p.assign assignment).2 with
      | ok relocation =>
          obtain ⟨happlied, hcount⟩ := ih (p.assign assignment).1 (completion.add relocation)
          refine ⟨?_, ?_⟩
          · rw [happlied]
            simp [Completion.add, Except.toOption]
          · rw [hcount]
            simp only [Completion.add, List.length_append, List.length_cons, List.length_nil]
            omega
      | error reason =>
          obtain ⟨happlied, hcount⟩ := ih (p.assign assignment).1 (completion.skip reason)
          refine ⟨?_, ?_⟩
          · rw [happlied]
            simp [Completion.skip, Except.toOption]
          · rw [hcount]
            simp only [Completion.skip, List.length_cons]
            omega

/-! ### One assignment -/

omit [Quantity α] in
theorem relocation_of_redirect {content : ContentId} {relocation : Relocation}
    (h : p.redirect id node content = .ok (relocation, q)) :
    relocation.group = id ∧ relocation.target = node := by
  simp only [redirect, bind, Except.bind] at h
  split at h
  · cases h
  · split at h
    · cases h
    · split at h
      · cases h
      · obtain ⟨rfl, -⟩ := Prod.mk.inj (Except.ok.inj h)
        exact ⟨rfl, rfl⟩

theorem relocation_of_rehome {edgeFor : Placement α → Option Edge} {relocation : Relocation}
    (h : p.rehome id node edgeFor = (q, .ok relocation)) :
    relocation.group = id ∧ relocation.target = node := by
  unfold rehome at h
  split at h
  · cases h
  · dsimp only at h
    split at h
    · cases h
    · next hredirect =>
        obtain ⟨-, heq⟩ := Prod.mk.inj h
        obtain rfl := Except.ok.inj heq
        exact relocation_of_redirect hredirect

/-- An assignment that is skipped leaves its group where it is, and one that is applied has it
served from the node that it names. -/
theorem Coherent.server_assign (h : Coherent d p) {assignment : Solver.Assignment} {group : Group}
    (hgroup : p.registry.group? ⟨assignment.group⟩ = some group) :
    ∃ later, (p.assign assignment).1.registry.group? ⟨assignment.group⟩ = some later ∧
      later.server =
        if (p.assign assignment).2.isOk then ⟨assignment.server⟩ else group.server := by
  rcases p.assign_cases assignment with
    ⟨servers, reason, heq, -⟩ | ⟨_, address, servers, -, -, heq⟩
  · rw [heq]
    exact ⟨group, hgroup, rfl⟩
  · have hgroup' : { p with servers }.registry.group? ⟨assignment.group⟩ = some group := hgroup
    have hreleased := group?_releaseBooking hgroup'
    have hknown : Coherent d { p with servers } :=
      (h.change (.aside p servers p.strategy p.tally p.requests p.pending)).1
    rw [heq]
    rcases hknown.rehome_cases hgroup' ⟨assignment.server⟩ fun p =>
        (p.registry.group? ⟨assignment.group⟩).bind (·.route.currentEdge?) with
      ⟨fault, hrehome, -⟩ | ⟨address, route, relocation, -, -, hrehome⟩
    · rw [hrehome]
      exact ⟨_, hreleased, rfl⟩
    · let moved := ({ p with servers }.releaseBooking ⟨assignment.group⟩).redirected
        ⟨assignment.group⟩ group ⟨assignment.server⟩ address route
      have hmoved : moved.registry.group? ⟨assignment.group⟩ = some _ :=
        Registry.group?_modify_self hreleased (·.servedFrom ⟨assignment.server⟩ address route)
      obtain ⟨t, -, hbook⟩ := bookGroup_eq hmoved
        ((moved.registry.group? ⟨assignment.group⟩).bind (·.route.currentEdge?))
      rw [hrehome, hbook]
      exact ⟨_, Registry.group?_modify_self hmoved _, rfl⟩

theorem Coherent.group?_assign_of_ne (h : Coherent d p) {assignment : Solver.Assignment}
    (hne : id ≠ ⟨assignment.group⟩) :
    (p.assign assignment).1.registry.group? id = p.registry.group? id := by
  rcases p.assign_cases assignment with
    ⟨servers, reason, heq, -⟩ | ⟨_, address, servers, -, -, heq⟩
  · rw [heq]
  · have hknown : Coherent d { p with servers } :=
      (h.change (.aside p servers p.strategy p.tally p.requests p.pending)).1
    rw [heq]
    exact hknown.group?_rehome_of_ne hne.symm _ _

/-- An assignment that is applied reports the move that it has made. -/
theorem relocation_of_assign {assignment : Solver.Assignment} {relocation : Relocation}
    (h : (p.assign assignment).2 = .ok relocation) :
    relocation.group = ⟨assignment.group⟩ ∧ relocation.target = ⟨assignment.server⟩ := by
  rcases p.assign_cases assignment with ⟨_, _, heq, -⟩ | ⟨_, _, servers, -, -, heq⟩
  · rw [heq] at h
    cases h
  · rw [heq] at h
    generalize hrehome : Placement.rehome { p with servers } _ _ _ = rehomed at h
    obtain ⟨q, fault | moved⟩ := rehomed
    · cases h
    · obtain rfl := Except.ok.inj h
      exact relocation_of_rehome hrehome

/-! ### All assignments -/

theorem stations_cons (id : GroupId) (assignment : Solver.Assignment)
    (outcome : Except Skip Relocation)
    (rest : List (Solver.Assignment × Except Skip Relocation)) :
    stations id ((assignment, outcome) :: rest) =
      if assignment.group = id.index ∧ outcome.isOk then ⟨assignment.server⟩ :: stations id rest
      else stations id rest := by
  unfold stations
  rw [List.filterMap_cons]
  split <;> split <;> simp_all

/-- A group is served from where it was sent last. -/
theorem Coherent.server_assignAll (h : Coherent d p) (completion : Completion)
    (assignments : List Solver.Assignment) {group : Group}
    (hgroup : p.registry.group? id = some group) :
    ∃ later, (p.assignAll completion assignments).1.registry.group? id = some later ∧
      later.server = (stations id (p.outcomes assignments)).getLast?.getD group.server := by
  induction assignments generalizing p completion group with
  | nil => exact ⟨group, hgroup, rfl⟩
  | cons assignment rest ih =>
      rw [assignAll_cons, outcomes, stations_cons]
      have hnext := (h.changes (h.changes_assign assignment)).1
      by_cases hnamed : id = ⟨assignment.group⟩
      · subst hnamed
        obtain ⟨next, hmoved, hserver⟩ := h.server_assign hgroup
        obtain ⟨later, hlater, hlast⟩ := ih hnext _ hmoved
        refine ⟨later, hlater, hlast.trans ?_⟩
        rw [hserver]
        by_cases hok : (p.assign assignment).2.isOk <;> simp [hok, List.getLast?_cons]
      · have hother := h.group?_assign_of_ne hnamed
        obtain ⟨later, hlater, hlast⟩ := ih hnext _ (hother.trans hgroup)
        have hne : assignment.group ≠ id.index := fun heq => hnamed (congrArg Id.mk heq.symm)
        exact ⟨later, hlater, by simp [hlast, hne]⟩

/-- A group that nobody names is not touched. -/
theorem Coherent.group?_assignAll_of_unnamed (h : Coherent d p) (completion : Completion)
    {assignments : List Solver.Assignment}
    (hunnamed : ∀ assignment ∈ assignments, assignment.group ≠ id.index) :
    (p.assignAll completion assignments).1.registry.group? id = p.registry.group? id := by
  induction assignments generalizing p completion with
  | nil => rfl
  | cons assignment rest ih =>
      have hne : id ≠ ⟨assignment.group⟩ := fun heq =>
        hunnamed assignment List.mem_cons_self (congrArg Id.index heq).symm
      rw [assignAll_cons, ih (h.changes (h.changes_assign assignment)).1 _
        fun later hlater => hunnamed later (List.mem_cons_of_mem _ hlater)]
      exact h.group?_assign_of_ne hne

theorem relocation_of_mem_outcomes {assignments : List Solver.Assignment}
    {assignment : Solver.Assignment} {relocation : Relocation}
    (hmem : (assignment, .ok relocation) ∈ p.outcomes assignments) :
    relocation.group = ⟨assignment.group⟩ ∧ relocation.target = ⟨assignment.server⟩ := by
  induction assignments generalizing p with
  | nil => cases hmem
  | cons first rest ih =>
      rcases List.mem_cons.mp hmem with heq | hmem
      · obtain ⟨rfl, houtcome⟩ := Prod.mk.inj heq
        exact relocation_of_assign houtcome.symm
      · exact ih hmem

/-! ### Answers -/

/-- The report of an awaited answer, and what is added to the counts. -/
theorem report_complete {answer : Solver.Answer} (hpending : answer.request ∈ p.pending) :
    let q := (p.complete answer).1
    let report := (p.complete answer).2
    report.applied =
        ((p.awaited answer).outcomes answer.assignments).filterMap (·.2.toOption) ∧
      report.applied.length + report.skipped = answer.assignments.length ∧
      q.tally.assignmentsApplied = p.tally.assignmentsApplied + report.applied.length ∧
      q.tally.assignmentsSkipped = p.tally.assignmentsSkipped + report.skipped := by
  obtain ⟨happlied, hcount⟩ := (p.awaited answer).assignAll_report { request := answer.request }
    answer.assignments
  have htally := congrArg Frame.tally (frame_assignAll (p.awaited answer)
    { request := answer.request } answer.assignments)
  rw [complete_of_pending hpending]
  refine ⟨by simpa using happlied, by simpa using hcount, ?_, ?_⟩
  · exact congrArg (·.assignmentsApplied + _) htally
  · exact congrArg (·.assignmentsSkipped + _) htally

/-- Once an awaited answer is accepted, no answer to its request is. -/
theorem answered_complete (hnumbered : p.exchange.Numbered) {answer : Solver.Answer}
    (hpending : answer.request ∈ p.pending) :
    (p.complete answer).1.exchange.Answered answer.request := by
  have hawaited : answer.request ∈ p.exchange.pending := hpending
  rw [exchange_complete, if_pos hawaited]
  exact hnumbered.answered_accept hawaited

/-- What an awaited answer makes of a group. -/
theorem Coherent.group?_complete (h : Coherent d p) {answer : Solver.Answer}
    (hpending : answer.request ∈ p.pending) {group : Group}
    (hgroup : p.registry.group? id = some group) :
    let q := (p.complete answer).1
    let outcomes := (p.awaited answer).outcomes answer.assignments
    ∃ later, q.registry.group? id = some later ∧ later.accessPoint = group.accessPoint ∧
      later.server = (stations id outcomes).getLast?.getD group.server ∧
      q.topology.route later.server group.accessPoint = .ok later.route ∧
      ((∀ assignment ∈ answer.assignments, assignment.group ≠ id.index) →
        later = group ∧ q.directory.get? group.key = p.directory.get? group.key) := by
  intro q outcomes
  have hawaited : Coherent d (p.awaited answer) :=
    (h.changes (.single (.aside _ _ _ _ _ _))).1
  have hlater : Coherent d q := (h.changes (h.changes_complete answer)).1
  obtain ⟨later, hpresent, hserver⟩ := hawaited.server_assignAll { request := answer.request }
    answer.assignments hgroup
  have hregistry : q.registry = ((p.awaited answer).assignAll { request := answer.request }
      answer.assignments).1.registry := by
    simp only [q, complete_of_pending hpending]
  rw [← hregistry] at hpresent
  have hprofiles : q.registry.profiles = p.registry.profiles := by
    rw [hregistry]
    exact congrArg Frame.profiles (frame_assignAll (p.awaited answer) _ _)
  obtain ⟨before, hbefore, hprofile⟩ := Registry.group?_of_profiles hprofiles hpresent
  obtain rfl : before = group := Option.some.inj (hbefore.symm.trans hgroup)
  have haccessPoint : later.accessPoint = before.accessPoint :=
    (congrArg Group.Profile.accessPoint hprofile).symm
  refine ⟨later, hpresent, haccessPoint, hserver, ?_, fun hunnamed => ?_⟩
  · rw [hlater.network.route_eq d.wired, ← haccessPoint]
    exact (hlater.served hpresent).routed
  · have hsame : q.registry.group? id = p.registry.group? id := by
      rw [hregistry]
      exact hawaited.group?_assignAll_of_unnamed _ hunnamed
    obtain rfl : later = before := Option.some.inj (hpresent.symm.trans (hsame.trans hgroup))
    -- The directory has the address of a group for its key, before and after.
    exact ⟨rfl, (hlater.listed hpresent).trans (h.listed hgroup).symm⟩

end Placement

namespace Deployment

/-- After any run, an answer that is not awaited changes nothing. One that is awaited is applied
assignment by assignment; what was applied is reported, the rest is counted, and both are added to
the counts. It is not awaited from then on, so no answer to the same request changes anything ever
after. Every group is served from where the last assignment sent it that was applied to it, along
the route from there; and a group that nobody names is as it was, with its entry in the
directory. -/
theorem answer_after (d : Deployment α) (ops : List Operation) (answer : Solver.Answer) :
    let p := d.after ops
    let q := (p.complete answer).1
    let report := (p.complete answer).2
    (answer.request ∉ p.pending → q = p ∧ report.applied = [] ∧ report.skipped = 0) ∧
    (answer.request ∈ p.pending →
      let outcomes := (p.awaited answer).outcomes answer.assignments
      (outcomes.map Prod.fst = answer.assignments ∧
        report.applied = outcomes.filterMap (·.2.toOption) ∧
        ∀ assignment relocation, (assignment, .ok relocation) ∈ outcomes →
          relocation.group = ⟨assignment.group⟩ ∧ relocation.target = ⟨assignment.server⟩) ∧
      (report.applied.length + report.skipped = answer.assignments.length ∧
        q.tally.assignmentsApplied = p.tally.assignmentsApplied + report.applied.length ∧
        q.tally.assignmentsSkipped = p.tally.assignmentsSkipped + report.skipped) ∧
      (∀ more again, again.request = answer.request →
        again.request ∉ (q.run more).pending ∧
          (q.run more).complete again = (q.run more, { request := again.request })) ∧
      ∀ id group, p.registry.group? id = some group →
        ∃ later, q.registry.group? id = some later ∧ later.accessPoint = group.accessPoint ∧
          later.server = (Placement.stations id outcomes).getLast?.getD group.server ∧
          q.topology.route later.server group.accessPoint = .ok later.route ∧
          ((∀ assignment ∈ answer.assignments, assignment.group ≠ id.index) →
            later = group ∧ q.directory.get? group.key = p.directory.get? group.key)) := by
  intro p q report
  refine ⟨fun hstray => ?_, fun hpending => ?_⟩
  · have hsame : p.complete answer = (p, { request := answer.request }) :=
      Placement.complete_of_not_pending hstray
    exact ⟨congrArg Prod.fst hsame, congrArg (·.2.applied) hsame, congrArg (·.2.skipped) hsame⟩
  · intro outcomes
    obtain ⟨happlied, hcount, hcounted⟩ := Placement.report_complete hpending
    have hanswered := Placement.answered_complete (d.numbered_after ops) hpending
    refine ⟨⟨Placement.map_fst_outcomes _ _, happlied,
      fun _ _ => Placement.relocation_of_mem_outcomes⟩, ⟨hcount, hcounted⟩, ?_, ?_⟩
    · intro more again hagain
      have hstray : again.request ∉ (q.run more).pending :=
        hagain ▸ ((Exchange.stable_answered _).run hanswered more).2
      exact ⟨hstray, Placement.complete_of_not_pending hstray⟩
    · intro id group hgroup
      exact (d.coherent_after ops).group?_complete hpending hgroup

/-- An answer that sends the group to the second server, then to the one that nothing is wired to,
and a group that is not there to the second. -/
def line.detour : Solver.Answer := { request := 0, assignments := [⟨0, 1⟩, ⟨0, 3⟩, ⟨5, 1⟩] }

/-- One of the three assignments is applied, and it decides. -/
theorem answer_on_line :
    let q := ((line.after line.asked).complete line.detour).1
    let report := ((line.after line.asked).complete line.detour).2
    0 ∈ (line.after line.asked).pending ∧ report.applied.length = 1 ∧ report.skipped = 2 ∧
      0 ∉ q.pending ∧ ∃ later, q.registry.group? ⟨0⟩ = some later ∧ later.server = ⟨1⟩ := by
  intro q report
  have hpending : 0 ∈ (line.after line.asked).pending := by decide +kernel
  obtain ⟨-, hanswered⟩ := answer_after line line.asked line.detour
  obtain ⟨⟨-, happlied, -⟩, ⟨hcount, -⟩, hignored, hgroups⟩ := hanswered hpending
  have hone : report.applied.length = 1 := by
    rw [happlied]
    decide +kernel
  have htotal : report.applied.length + report.skipped = 3 := hcount
  obtain ⟨group, hgroup⟩ : ∃ group, (line.after line.asked).registry.group? ⟨0⟩ = some group :=
    Option.isSome_iff_exists.mp (by decide +kernel)
  obtain ⟨later, hlater, -, hserver, -⟩ := hgroups ⟨0⟩ group hgroup
  have hstations : Placement.stations ⟨0⟩ (((line.after line.asked).awaited line.detour).outcomes
      line.detour.assignments) = [⟨1⟩] := by decide +kernel
  rw [hstations] at hserver
  exact ⟨hpending, hone, by omega, (hignored [] line.detour rfl).1, later, hlater, hserver⟩

end Deployment

end StreamPlacement
