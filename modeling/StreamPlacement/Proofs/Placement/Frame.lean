import StreamPlacement.Proofs.Placement.Operations

/-!
What moving groups leaves alone.

To give a booking back, to redirect a group and to book it anew changes the loads, the directory and
the servers, and of a group only from where it is served. The rest of the state is its frame. The
greedy reaction and the assignments of the solver are made of such steps alone, so whatever can be
read off the frame is the same after them.
-/

namespace StreamPlacement

/-- What a group is, wherever it is served. -/
structure Group.Profile where
  id : GroupId
  key : GroupKey
  accessPoint : NodeId
  requested : NodeId
  content : ContentId
  viewers : List Viewer
  deriving DecidableEq

def Group.profile (group : Group) : Group.Profile where
  id := group.id
  key := group.key
  accessPoint := group.accessPoint
  requested := group.requested
  content := group.content
  viewers := group.viewers

namespace Registry

variable {registry : Registry} {id : GroupId}

/-- The profiles of all groups, in order of appearance. -/
def profiles (registry : Registry) : List Group.Profile := registry.groups.map Group.profile

theorem getElem?_profiles (registry : Registry) (i : Nat) :
    registry.profiles[i]? = (registry.group? ⟨i⟩).map Group.profile := List.getElem?_map

/-- Where the profiles are the same, every group was there before, with its profile. -/
theorem group?_of_profiles {registry' : Registry} (h : registry'.profiles = registry.profiles)
    {group : Group} (hgroup : registry'.group? id = some group) :
    ∃ before, registry.group? id = some before ∧ before.profile = group.profile := by
  have hprofile := registry'.getElem?_profiles id.index
  rw [h, getElem?_profiles, hgroup] at hprofile
  exact Option.map_eq_some_iff.mp hprofile

theorem profiles_modify {change : Group → Group}
    (h : ∀ group, (change group).profile = group.profile) :
    (registry.modify id change).profiles = registry.profiles :=
  map_modify_of_eq fun group _ => h group

theorem profiles_clearBookings (registry : Registry) (e : Edge) :
    (registry.clearBookings e).profiles = registry.profiles := by
  show (registry.groups.map (forget e)).map Group.profile = registry.groups.map Group.profile
  rw [List.map_map]
  refine List.map_congr_left fun group _ => ?_
  rw [Function.comp_apply, forget]
  split <;> rfl

end Registry

/-- What no move of a group touches. How often groups were moved and links were congested is not
part of it. -/
structure Frame where
  book : AddressBook
  grouping : Grouping
  profiles : List Group.Profile
  strategy : Strategy
  tally : Tally
  requests : Array Solver.Request
  pending : List Solver.RequestId

namespace Placement

variable {α : Type}

def frame (p : Placement α) : Frame where
  book := p.book
  grouping := p.registry.grouping
  profiles := p.registry.profiles
  strategy := p.strategy
  tally := { p.tally with relocations := 0, congestionEvents := 0 }
  requests := p.requests
  pending := p.pending

variable [Quantity α] {p q : Placement α} {id : GroupId} {node : NodeId}

omit [Quantity α] in
/-- A group may be served in another way, and the loads may change with it. -/
theorem frame_modify {topology : Topology α} {change : Group → Group}
    (h : ∀ group, (change group).profile = group.profile) :
    ({ p with topology, registry := p.registry.modify id change } : Placement α).frame =
      p.frame := by
  have hprofiles : (p.registry.modify id change).profiles = p.registry.profiles :=
    Registry.profiles_modify h
  simp only [frame, hprofiles]
  rfl

@[simp] theorem frame_clearEdge (p : Placement α) (e : Edge) :
    (p.clearEdge e).frame = p.frame := by
  simp only [frame, clearEdge, Registry.profiles_clearBookings]
  rfl

@[simp] theorem frame_releaseBooking (p : Placement α) (id : GroupId) :
    (p.releaseBooking id).frame = p.frame := by
  unfold releaseBooking
  split
  · exact frame_modify fun _ => rfl
  · rfl

@[simp] theorem frame_bookGroup (p : Placement α) (id : GroupId) (edge : Option Edge) :
    (p.bookGroup id edge).frame = p.frame := by
  unfold bookGroup
  split <;> exact frame_modify fun _ => rfl

omit [Quantity α] in
theorem frame_of_redirect {content : ContentId} {relocation : Relocation}
    (h : p.redirect id node content = .ok (relocation, q)) : q.frame = p.frame := by
  unfold redirect at h
  cases haddress : p.book.nodeAddress node with
  | error fault =>
      rw [haddress] at h
      cases h
  | ok address =>
      simp only [haddress, bind, Except.bind] at h
      split at h
      · cases h
      · next group _ =>
          cases hroute : p.topology.route node group.accessPoint with
          | error fault =>
              rw [hroute] at h
              cases h
          | ok route =>
              rw [hroute] at h
              cases h
              show Placement.frame { p with
                topology := p.topology
                registry := p.registry.modify id _ } = _
              exact frame_modify fun _ => rfl

@[simp] theorem frame_rehome (p : Placement α) (id : GroupId) (node : NodeId)
    (edgeFor : Placement α → Option Edge) : (p.rehome id node edgeFor).1.frame = p.frame := by
  unfold rehome
  split
  · rfl
  · dsimp only
    split
    · exact frame_releaseBooking p id
    · next hredirect =>
        rw [frame_bookGroup, frame_of_redirect hredirect, frame_releaseBooking]

@[simp] theorem frame_rehomeAll (node : NodeId) (edge : Option Edge) (ids : List GroupId)
    (p : Placement α) : (rehomeAll node edge ids p).1.frame = p.frame := by
  induction ids generalizing p with
  | nil => rfl
  | cons id rest ih =>
      have hfirst := frame_rehome p id node fun _ => edge
      unfold rehomeAll
      split
      · next heq =>
          rw [heq] at hfirst
          exact hfirst
      · next heq =>
          rw [heq] at hfirst
          exact (ih _).trans hfirst

@[simp] theorem frame_carryOut (p : Placement α) (decision : Decision) :
    (p.carryOut decision).1.frame = p.frame := by
  have hall := frame_rehomeAll decision.node decision.reason.edge? decision.groups p
  unfold carryOut
  split
  · next heq =>
      rw [heq] at hall
      exact hall
  · next heq =>
      rw [heq] at hall
      split <;> exact hall

@[simp] theorem frame_carryOutAll (decisions : List Decision) (p : Placement α) :
    (carryOutAll decisions p).1.frame = p.frame := by
  induction decisions generalizing p with
  | nil => rfl
  | cons decision rest ih =>
      have hfirst := frame_carryOut p decision
      unfold carryOutAll
      split
      · next heq =>
          rw [heq] at hfirst
          exact hfirst
      · next heq =>
          rw [heq] at hfirst
          exact (ih _).trans hfirst

@[simp] theorem frame_reallocate (p : Placement α) (candidates : List GroupId) :
    (p.reallocate candidates).1.frame = p.frame := frame_carryOutAll _ p

@[simp] theorem frame_relieve (p : Placement α) (e : Edge) :
    (p.relieve e).1.frame = p.frame :=
  (frame_reallocate (p.clearEdge e) _).trans (frame_clearEdge p e)

@[simp] theorem frame_assign (p : Placement α) (assignment : Solver.Assignment) :
    (p.assign assignment).1.frame = p.frame := by
  rcases p.assign_cases assignment with ⟨_, _, heq, -⟩ | ⟨_, _, _, -, -, heq⟩
  · rw [heq]
    rfl
  · rw [heq]
    exact frame_rehome _ _ _ _

@[simp] theorem frame_assignAll (p : Placement α) (completion : Completion)
    (assignments : List Solver.Assignment) :
    (p.assignAll completion assignments).1.frame = p.frame := by
  induction assignments generalizing p completion with
  | nil => rfl
  | cons assignment rest ih => rw [assignAll_cons, ih, frame_assign]

end Placement

end StreamPlacement
