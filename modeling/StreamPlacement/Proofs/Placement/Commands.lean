import StreamPlacement.Proofs.Placement.Membership

/-!
Runs in which groups are also redirected by hand.

A redirection that is asked for by itself may name any content, and then it may put an entry into
the directory for a key that has no group, or that another group has. So the states of these runs
are not coherent. What they have in common is what only the admission of viewers touches: a group
keeps its number and its key, and all its viewers have that key.
-/

namespace StreamPlacement

variable {α : Type} [Quantity α] {d : Deployment α}

/-- An operation, or the redirection of a group that is asked for by itself. -/
inductive Command
  | operate (op : Operation)
  | redirect (id : GroupId) (node : NodeId) (content : ContentId)
  deriving DecidableEq

namespace Placement

/-- The state after one command, which may have failed. -/
def obey (p : Placement α) : Command → Placement α
  | .operate op => p.perform op
  | .redirect id node content =>
    match p.redirect id node content with
    | .ok (_, next) => next
    | .error _ => p

/-- The state after some commands. -/
def obeyAll (p : Placement α) (commands : List Command) : Placement α := commands.foldl obey p

/-! ### Who is in which group -/

/-- Every group has its position for a number, and its content and those of its viewers all lead to
its key. -/
structure Filed (d : Deployment α) (p : Placement α) : Prop where
  book_eq : p.book = d.book
  grouping_eq : p.registry.grouping = d.grouping
  numbered : ∀ {id group}, p.registry.group? id = some group → group.id = id
  keyed : ∀ {id group}, p.registry.group? id = some group →
    d.grouping.keyFor group.key.broadcast group.content = group.key
  matched : ∀ {id group viewer}, p.registry.group? id = some group → viewer ∈ group.viewers →
    d.grouping.keyFor group.key.broadcast viewer.content = group.key

variable {p q : Placement α} {id : GroupId} {group : Group}

theorem filed_start (d : Deployment α) : Filed d d.start where
  book_eq := rfl
  grouping_eq := rfl
  numbered h := by simp [Deployment.start, start, Registry.group?] at h
  keyed h := by simp [Deployment.start, start, Registry.group?] at h
  matched h := by simp [Deployment.start, start, Registry.group?] at h

/-- Where groups are sorted by content, the viewers of a group want its own. -/
theorem Filed.content_eq (h : Filed d p) (hgrouping : d.grouping = .byContent)
    (hgroup : p.registry.group? id = some group) {viewer : Viewer} (hmem : viewer ∈ group.viewers) :
    viewer.content = group.content := by
  have hkey := (h.matched hgroup hmem).trans (h.keyed hgroup).symm
  rw [hgrouping] at hkey
  simpa [Grouping.keyFor] using hkey

/-! ### Steps and runs -/

/-- Nothing but the profiles of the groups matters. -/
theorem Filed.of_profiles (h : Filed d p) (hbook : q.book = p.book)
    (hgrouping : q.registry.grouping = p.registry.grouping)
    (hprofiles : q.registry.profiles = p.registry.profiles) : Filed d q := by
  constructor
  case book_eq => exact hbook.trans h.book_eq
  case grouping_eq => exact hgrouping.trans h.grouping_eq
  case numbered =>
    intro id group hgroup
    obtain ⟨before, hbefore, hprofile⟩ := Registry.group?_of_profiles hprofiles hgroup
    exact (congrArg Group.Profile.id hprofile).symm.trans (h.numbered hbefore)
  case keyed =>
    intro id group hgroup
    obtain ⟨before, hbefore, hprofile⟩ := Registry.group?_of_profiles hprofiles hgroup
    obtain ⟨-, hkey, -, -, hcontent, -⟩ := (Group.Profile.mk.injEq ..).mp hprofile
    rw [← hkey, ← hcontent]
    exact h.keyed hbefore
  case matched =>
    intro id group viewer hgroup hmem
    obtain ⟨before, hbefore, hprofile⟩ := Registry.group?_of_profiles hprofiles hgroup
    obtain ⟨-, hkey, -, -, -, hviewers⟩ := (Group.Profile.mk.injEq ..).mp hprofile
    rw [← hviewers] at hmem
    rw [← hkey]
    exact h.matched hbefore hmem

theorem Filed.of_frame (h : Filed d p) (hframe : q.frame = p.frame) : Filed d q :=
  h.of_profiles (congrArg Frame.book hframe) (congrArg Frame.grouping hframe)
    (congrArg Frame.profiles hframe)

/-- A viewer may join a group that its content leads to. -/
theorem Filed.join (h : Filed d p) {viewer : Viewer}
    (hmatches : ∀ group, p.registry.group? id = some group →
      d.grouping.keyFor group.key.broadcast viewer.content = group.key) :
    Filed d { p with registry := p.registry.modify id (·.addViewer viewer) } where
  book_eq := h.book_eq
  grouping_eq := h.grouping_eq
  numbered hlater := by
    obtain ⟨before, hbefore, hlater⟩ := Registry.group?_modify_cases hlater
    have hnumbered := h.numbered hbefore
    rcases hlater with ⟨-, rfl⟩ | ⟨-, rfl⟩ <;> exact hnumbered
  keyed hlater := by
    obtain ⟨before, hbefore, hlater⟩ := Registry.group?_modify_cases hlater
    have hkeyed := h.keyed hbefore
    rcases hlater with ⟨-, rfl⟩ | ⟨-, rfl⟩ <;> exact hkeyed
  matched hlater hmem := by
    obtain ⟨before, hbefore, ⟨rfl, rfl⟩ | ⟨-, rfl⟩⟩ := Registry.group?_modify_cases hlater
    · rcases List.mem_append.mp hmem with hold | hnew
      · have hmatched := h.matched hbefore hold
        exact hmatched
      · obtain rfl := List.mem_singleton.mp hnew
        exact hmatches before hbefore
    · exact h.matched hbefore hmem

/-- A group may be founded by a viewer that it is keyed for. -/
theorem Filed.found (h : Filed d p) {founded : Group} (directory : Directory)
    (hnumbered : founded.id = ⟨p.registry.size⟩)
    (hkeyed : d.grouping.keyFor founded.key.broadcast founded.content = founded.key)
    (hviewers : ∀ viewer ∈ founded.viewers, viewer.content = founded.content) :
    Filed d { p with
      registry := { p.registry with groups := p.registry.groups ++ [founded] }, directory } where
  book_eq := h.book_eq
  grouping_eq := h.grouping_eq
  numbered hlater := by
    rcases Registry.group?_append_cases hlater with ⟨rfl, rfl⟩ | hbefore
    · exact hnumbered
    · exact h.numbered hbefore
  keyed hlater := by
    rcases Registry.group?_append_cases hlater with ⟨rfl, rfl⟩ | hbefore
    · exact hkeyed
    · exact h.keyed hbefore
  matched hlater hmem := by
    rcases Registry.group?_append_cases hlater with ⟨rfl, rfl⟩ | hbefore
    · rw [hviewers _ hmem]
      exact hkeyed
    · exact h.matched hbefore hmem

/-- A viewer joins the group of its key or founds it, and the group is there then. -/
theorem Filed.enroll (h : Filed d p) {accessPoint requested : NodeId} {content : ContentId}
    {user : UserId} {registry : Registry} {directory : Directory}
    (henroll : p.registry.enroll p.topology p.book p.directory accessPoint requested content user =
      .ok (id, registry, directory)) :
    Filed d { p with registry, directory } ∧ ∃ group, registry.group? id = some group := by
  obtain ⟨attachment, -, ⟨hfind, rfl, rfl⟩ | ⟨-, route, address, -, hid, rfl, -⟩⟩ :=
    Registry.enroll_cases henroll
  · obtain ⟨group, hgroup, hkey⟩ := Registry.group?_of_find? h.numbered hfind
    refine ⟨h.join fun group' hgroup' => ?_, _, Registry.group?_modify_self hgroup _⟩
    obtain rfl : group = group' := Option.some.inj (hgroup.symm.trans hgroup')
    rw [hkey, h.grouping_eq, Grouping.broadcast_keyFor]
  · let founded := p.registry.founded p.book attachment accessPoint requested content user address
      route
    refine ⟨h.found directory rfl ?_ fun viewer hmem => ?_, founded, ?_⟩
    · simp only [Registry.founded, h.grouping_eq, Grouping.broadcast_keyFor]
    · rw [List.mem_singleton.mp hmem]
      rfl
    · rw [Registry.group?_append]
      exact if_pos (congrArg Id.index hid)

theorem Filed.admitViewer (h : Filed d p) {accessPoint requested : NodeId} {content : ContentId}
    {user : UserId} {admission : Admission}
    (harrive : p.admitViewer accessPoint requested content user = .ok (admission, q)) :
    Filed d q := by
  obtain ⟨id, registry, directory, henroll, hcases⟩ := admitViewer_cases harrive
  have henrolled := (h.enroll henroll).1
  rcases hcases with ⟨-, -, rfl⟩ | ⟨e, -, ⟨-, rfl⟩ | ⟨-, rfl⟩⟩
  · exact henrolled.of_profiles rfl rfl rfl
  · exact henrolled.of_profiles rfl rfl (Registry.profiles_modify fun _ => rfl)
  · exact henrolled.of_profiles rfl rfl rfl

omit [Quantity α] in
theorem registry_escalate {e : Edge} {request : Solver.RequestId}
    (h : p.escalate e = .ok (request, q)) : q.registry = p.registry ∧ q.book = p.book := by
  obtain ⟨_, -, rfl⟩ := escalate_eq h
  exact ⟨rfl, rfl⟩

theorem Filed.escalate (h : Filed d p) {e : Edge} {request : Solver.RequestId}
    (hescalate : p.escalate e = .ok (request, q)) : Filed d q := by
  obtain ⟨hregistry, hbook⟩ := registry_escalate hescalate
  exact h.of_profiles hbook (congrArg Registry.grouping hregistry)
    (congrArg Registry.profiles hregistry)

theorem Filed.complete (h : Filed d p) (answer : Solver.Answer) :
    Filed d (p.complete answer).1 := by
  by_cases hpending : answer.request ∈ p.pending
  · have hawaited : Filed d (p.awaited answer) := h.of_profiles rfl rfl rfl
    rw [complete_of_pending hpending]
    exact (hawaited.of_frame (frame_assignAll _ _ _)).of_profiles rfl rfl rfl
  · rw [complete_of_not_pending hpending]
    exact h

theorem Filed.perform (h : Filed d p) (op : Operation) : Filed d (p.perform op) := by
  cases op with
  | arrive accessPoint requested content user =>
      simp only [Placement.perform]
      split
      · next harrive => exact h.admitViewer harrive
      · exact h
  | react e =>
      simp only [Placement.perform, react]
      split
      · exact h.of_frame (frame_relieve p e)
      · split
        · exact h
        · next hescalate => exact h.escalate hescalate
  | relieve e => exact h.of_frame (frame_relieve p e)
  | reallocate candidates => exact h.of_frame (frame_reallocate p candidates)
  | escalate e =>
      simp only [Placement.perform]
      split
      · next hescalate => exact h.escalate hescalate
      · exact h
  | complete answer => exact h.complete answer
  | activate => exact h.of_profiles rfl rfl rfl
  | hangUp => exact h.of_profiles rfl rfl rfl

theorem Filed.obey (h : Filed d p) (command : Command) : Filed d (p.obey command) := by
  cases command with
  | operate op => exact h.perform op
  | redirect id node content =>
      simp only [Placement.obey]
      split
      · next hredirect => exact h.of_frame (frame_of_redirect hredirect)
      · exact h

end Placement

namespace Deployment

/-- The state after some commands. -/
def afterAll (d : Deployment α) (commands : List Command) : Placement α :=
  d.start.obeyAll commands

theorem filed_afterAll (d : Deployment α) (commands : List Command) :
    (d.afterAll commands).Filed d :=
  List.foldlRecOn commands Placement.obey (Placement.filed_start d)
    fun _ hp command _ => hp.obey command

end Deployment

end StreamPlacement
