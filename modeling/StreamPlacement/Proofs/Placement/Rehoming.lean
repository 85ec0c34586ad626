import StreamPlacement.Proofs.Placement.Coherence

/-!
Admission and re-homing, taken apart into changes.

A group that is re-homed first gives its booking back. Then either its new server or the way down
from it is not there, and that is all that has happened; or it is redirected, the directory with it,
and its streams are booked on the first hop of the new route.
-/

namespace StreamPlacement

theorem Grouping.broadcast_keyFor (grouping : Grouping) (broadcast : Address)
    (content : ContentId) : (grouping.keyFor broadcast content).broadcast = broadcast := by
  cases grouping <;> rfl

theorem Grouping.withContent_keyFor (grouping : Grouping) (broadcast : Address)
    (content : ContentId) :
    (grouping.keyFor broadcast content).withContent content =
      grouping.keyFor broadcast content := by
  cases grouping <;> rfl

variable {α : Type} [Quantity α] {d : Deployment α}

/-- A group's own content does not change its key. -/
theorem Deployment.Serves.withContent {group : Group} (h : d.Serves group) :
    group.key.withContent group.content = group.key := by
  rw [← h.keyed, Grouping.withContent_keyFor]

namespace Placement

variable {p q : Placement α} {id : GroupId}

/-! ### Admission -/

theorem Coherent.group?_of_find? (h : Coherent d p) {key : GroupKey}
    (hfind : p.registry.find? key = some id) :
    ∃ group, p.registry.group? id = some group ∧ group.key = key :=
  Registry.group?_of_find? h.numbered hfind

/-- No entry of the directory precedes its group. -/
theorem Coherent.unlisted (h : Coherent d p) {key : GroupKey}
    (hfind : p.registry.find? key = none) : p.directory.get? key = none := by
  rw [Option.eq_none_iff_forall_ne_some]
  intro address haddress
  obtain ⟨id, group, hgroup, hkey⟩ :=
    h.covered key (OrderedMap.mem_keys_iff.mpr ⟨address, haddress⟩)
  exact Registry.find?_eq_none_iff.mp hfind hgroup hkey

/-- A viewer joins the group of its key or founds it, and in its group there is one viewer more
than streams. -/
theorem Coherent.enroll (h : Coherent d p) {accessPoint requested : NodeId} {content : ContentId}
    {user : UserId} {registry : Registry} {directory : Directory}
    (henroll : p.registry.enroll p.topology p.book p.directory accessPoint requested content user =
      .ok (id, registry, directory)) :
    Change d p { p with registry, directory } ∧
      ∃ attachment group, d.book.client? user = some attachment ∧
        registry.group? id = some group ∧
        group.key = d.grouping.keyFor attachment.broadcast content ∧
        ∀ booking, group.booking = some booking → booking.streams < group.size := by
  obtain ⟨attachment, hclient, hcases⟩ := Registry.enroll_cases henroll
  rw [h.book_eq] at hclient
  rcases hcases with ⟨hfind, rfl, rfl⟩ | ⟨hfind, route, address, hroute, hid, rfl, hentry⟩
  · obtain ⟨group, hgroup, hkey⟩ := h.group?_of_find? hfind
    refine ⟨.join _ hgroup, attachment, _, hclient, Registry.group?_modify_self hgroup _,
      h.grouping_eq ▸ hkey, fun booking hbooking => ?_⟩
    obtain ⟨-, -, hle⟩ := (h.served hgroup).booked booking hbooking
    simp only [Group.size, Group.addViewer, List.length_append, List.length_singleton] at hle ⊢
    omega
  · let group := p.registry.founded p.book attachment accessPoint requested content user address
      route
    -- So the address is that of the node that was asked for, and leads back to it.
    have hunlisted : p.directory.get? group.key = none := h.unlisted hfind
    rcases hentry with ⟨hlisted, -⟩ | ⟨-, hnode, rfl⟩
    · exact absurd (hunlisted.symm.trans hlisted) (by simp)
    have hserver : group.server = requested := by
      have hback := d.issued.nodeAt?_of_nodeAddress (h.book_eq ▸ hnode)
      simp only [group, Registry.founded, h.book_eq, hback, Option.getD_some]
    have hserves : d.Serves group := by
      refine ⟨?_, ?_, ?_, Nat.one_pos, fun booking hbooking => by cases hbooking⟩
      · rw [hserver, ← h.network.route_eq d.wired]
        exact hroute
      · rw [hserver, ← h.book_eq]
        exact hnode
      · simp only [group, Registry.founded, h.grouping_eq, Grouping.broadcast_keyFor]
    refine ⟨.found rfl (Registry.find?_eq_none_iff.mp hfind) hserves rfl, attachment, group,
      hclient, ?_, ?_, fun booking hbooking => by cases hbooking⟩
    · rw [Registry.group?_append]
      exact if_pos (congrArg Id.index hid)
    · exact congrArg (·.keyFor attachment.broadcast content) h.grouping_eq

/-- All that an admission can do: the viewer is enrolled and counted, and then its group has no hop
to book, or has one more stream booked on its first hop, or is refused it. -/
theorem admitViewer_cases {accessPoint requested : NodeId} {content : ContentId} {user : UserId}
    {admission : Admission}
    (harrive : p.admitViewer accessPoint requested content user = .ok (admission, q)) :
    ∃ id registry directory,
      p.registry.enroll p.topology p.book p.directory accessPoint requested content user =
        .ok (id, registry, directory) ∧
      (((registry.group? id).bind (·.route.currentEdge?) = none ∧ admission = .accepted id none ∧
          q = { p with
            registry
            directory
            tally := { p.tally with admitted := p.tally.admitted + 1 } }) ∨
        ∃ e, (registry.group? id).bind (·.route.currentEdge?) = some e ∧
          ((admission = .accepted id (some e) ∧
              q = { p with
                topology := p.topology.allocate e
                registry := registry.modify id (·.bookStream e)
                directory
                tally := { p.tally with admitted := p.tally.admitted + 1 } }) ∨
            admission = .exceeded id e ∧
              q = { p with
                registry
                directory
                tally := { p.tally with refused := p.tally.refused + 1 } })) := by
  unfold admitViewer at harrive
  cases henroll : p.registry.enroll p.topology p.book p.directory accessPoint requested content
      user with
  | error fault =>
      rw [henroll] at harrive
      cases harrive
  | ok result =>
      obtain ⟨id, registry, directory⟩ := result
      rw [henroll] at harrive
      simp only [bind, Except.bind, pure, Except.pure] at harrive
      refine ⟨id, registry, directory, rfl, ?_⟩
      split at harrive
      · next hfirst =>
          cases harrive
          exact .inl ⟨hfirst, rfl, rfl⟩
      · next e hfirst =>
          split at harrive
          · cases harrive
            exact .inr ⟨e, hfirst, .inl ⟨rfl, rfl⟩⟩
          · cases harrive
            exact .inr ⟨e, hfirst, .inr ⟨rfl, rfl⟩⟩

/-- An admission counts whether the viewer was let in, and changes nothing else that is on record
about the course of events. -/
theorem admitViewer_eq {accessPoint requested : NodeId} {content : ContentId} {user : UserId}
    {admission : Admission}
    (harrive : p.admitViewer accessPoint requested content user = .ok (admission, q)) :
    ∃ topology registry directory admitted refused,
      q = { p with
        topology, registry, directory, tally := { p.tally with admitted, refused } } := by
  obtain ⟨_, _, _, -, hcases⟩ := admitViewer_cases harrive
  rcases hcases with ⟨-, -, rfl⟩ | ⟨_, -, ⟨-, rfl⟩ | ⟨-, rfl⟩⟩ <;>
    exact ⟨_, _, _, _, _, rfl⟩

/-- In a coherent state the viewer is enrolled in a group that is there. -/
theorem Coherent.admitViewer_cases (h : Coherent d p) {accessPoint requested : NodeId}
    {content : ContentId} {user : UserId} {admission : Admission}
    (harrive : p.admitViewer accessPoint requested content user = .ok (admission, q)) :
    ∃ id registry directory group tally,
      p.registry.enroll p.topology p.book p.directory accessPoint requested content user =
        .ok (id, registry, directory) ∧
      registry.group? id = some group ∧
      ((group.route.currentEdge? = none ∧ admission = .accepted id none ∧
          q = { p with registry, directory, tally }) ∨
        ∃ e, group.route.currentEdge? = some e ∧
          ((admission = .accepted id (some e) ∧
              q = { p with
                topology := p.topology.allocate e
                registry := registry.modify id (·.bookStream e)
                directory
                tally }) ∨
            admission = .exceeded id e ∧ q = { p with registry, directory, tally })) := by
  obtain ⟨id, registry, directory, henroll, hcases⟩ := Placement.admitViewer_cases harrive
  obtain ⟨-, -, group, -, hgroup, -, -⟩ := h.enroll henroll
  rw [hgroup, Option.bind_some] at hcases
  rcases hcases with ⟨hfirst, hq⟩ | ⟨e, hfirst, hq | hq⟩
  · exact ⟨id, registry, directory, group, _, henroll, hgroup, .inl ⟨hfirst, hq⟩⟩
  · exact ⟨id, registry, directory, group, _, henroll, hgroup, .inr ⟨e, hfirst, .inl hq⟩⟩
  · exact ⟨id, registry, directory, group, _, henroll, hgroup, .inr ⟨e, hfirst, .inr hq⟩⟩

/-- An admission is an enrolment, and a booking on the first hop where there is room for it. -/
theorem Coherent.admitViewer (h : Coherent d p) {accessPoint requested : NodeId}
    {content : ContentId} {user : UserId} {admission : Admission}
    (harrive : p.admitViewer accessPoint requested content user = .ok (admission, q)) :
    Changes d p q ∧
      ∃ attachment group, d.book.client? user = some attachment ∧
        q.registry.group? admission.group = some group ∧
        group.key = d.grouping.keyFor attachment.broadcast content := by
  obtain ⟨id, registry, directory, group, tally, henroll, hgroup, hcases⟩ :=
    h.admitViewer_cases harrive
  obtain ⟨henter, attachment, group', hclient, hgroup', hkey, hspare⟩ := h.enroll henroll
  obtain rfl : group = group' := Option.some.inj (hgroup.symm.trans hgroup')
  have hentered : Changes d p { p with registry, directory } := .single henter
  have hcounted : ∀ r : Placement α, Change d r { r with tally } := fun r =>
    .aside r r.servers r.strategy tally r.requests r.pending
  rcases hcases with ⟨-, rfl, rfl⟩ | ⟨e, hfirst, ⟨rfl, rfl⟩ | ⟨rfl, rfl⟩⟩
  · exact ⟨hentered.tail (hcounted _), attachment, group, hclient, hgroup, hkey⟩
  · exact ⟨(hentered.tail (.stream hgroup hfirst hspare)).tail (hcounted _), attachment, _,
      hclient, Registry.group?_modify_self hgroup _, hkey⟩
  · exact ⟨hentered.tail (hcounted _), attachment, group, hclient, hgroup, hkey⟩

/-! ### Re-homing -/

@[simp] theorem servers_releaseBooking (p : Placement α) (id : GroupId) :
    (p.releaseBooking id).servers = p.servers := by
  unfold releaseBooking
  split <;> rfl

theorem releaseBooking_of_free {group : Group} (hgroup : p.registry.group? id = some group)
    (hfree : group.booking = none) : p.releaseBooking id = p := by
  simp [releaseBooking, hgroup, hfree]

theorem registry_releaseBooking (p : Placement α) (id : GroupId) :
    (p.releaseBooking id).registry = p.registry.modify id ({ · with booking := none }) := by
  unfold releaseBooking
  split
  · rfl
  · next hnone =>
      rw [Registry.modify_eq_self]
      intro group hgroup
      have hfree : group.booking = none := by simpa [hgroup] using hnone
      rw [← hfree]

theorem group?_releaseBooking {group : Group} (hgroup : p.registry.group? id = some group) :
    (p.releaseBooking id).registry.group? id = some { group with booking := none } := by
  rw [registry_releaseBooking]
  exact Registry.group?_modify_self hgroup _

/-- A group has been redirected, and is not booked yet. -/
def redirected (p : Placement α) (id : GroupId) (group : Group) (node : NodeId) (address : Address)
    (route : Route) : Placement α :=
  { p with
    tally := { p.tally with
      relocations := p.tally.relocations + if group.server ≠ node then 1 else 0 }
    registry := p.registry.modify id (·.servedFrom node address route)
    directory := p.directory.insert group.key address }

/-- All that redirecting a group of a coherent state can do. -/
theorem Coherent.redirect_cases (h : Coherent d p) {group : Group}
    (hgroup : p.registry.group? id = some group) (node : NodeId) :
    (∃ fault, p.redirect id node group.content = .error fault ∧
        (d.book.nodeAddress node = .error fault ∨
          d.topology.route node group.accessPoint = .error fault)) ∨
      ∃ address route relocation, d.book.nodeAddress node = .ok address ∧
        d.topology.route node group.accessPoint = .ok route ∧
        p.redirect id node group.content =
          .ok (relocation, p.redirected id group node address route) := by
  have hnode : p.book.nodeAddress node = d.book.nodeAddress node := by rw [h.book_eq]
  have hroute := h.network.route_eq d.wired node group.accessPoint
  simp only [redirect, hnode, hgroup, hroute, (h.served hgroup).withContent]
  cases d.book.nodeAddress node with
  | error fault => exact .inl ⟨fault, rfl, .inl rfl⟩
  | ok address =>
      cases d.topology.route node group.accessPoint with
      | error fault => exact .inl ⟨fault, rfl, .inr rfl⟩
      | ok route => exact .inr ⟨address, route, _, rfl, rfl, rfl⟩

/-- All that re-homing a group of a coherent state can do. -/
theorem Coherent.rehome_cases (h : Coherent d p) {group : Group}
    (hgroup : p.registry.group? id = some group) (node : NodeId)
    (edgeFor : Placement α → Option Edge) :
    (∃ fault, p.rehome id node edgeFor = (p.releaseBooking id, .error fault) ∧
        (d.book.nodeAddress node = .error fault ∨
          d.topology.route node group.accessPoint = .error fault)) ∨
      ∃ address route relocation, d.book.nodeAddress node = .ok address ∧
        d.topology.route node group.accessPoint = .ok route ∧
        let moved := (p.releaseBooking id).redirected id group node address route
        p.rehome id node edgeFor = (moved.bookGroup id (edgeFor moved), .ok relocation) := by
  have hcases := (h.releaseBooking id).1.redirect_cases (group?_releaseBooking hgroup) node
  dsimp only at hcases
  rcases hcases with ⟨fault, heq, hfault⟩ | ⟨address, route, relocation, haddress, hroute, heq⟩
  · refine .inl ⟨fault, ?_, hfault⟩
    simp only [rehome, hgroup, heq]
  · refine .inr ⟨address, route, relocation, haddress, hroute, ?_⟩
    simp only [rehome, hgroup, heq]
    rfl

/-- Re-homing is made of changes if the edge to be booked is the first hop of the new route. -/
theorem Coherent.changes_rehome (h : Coherent d p) {node : NodeId}
    {edgeFor : Placement α → Option Edge}
    (hedge : ∀ (moved : Placement α) (group served : Group), p.registry.group? id = some group →
      moved.registry.group? id = some served → served.accessPoint = group.accessPoint →
      d.topology.route node served.accessPoint = .ok served.route →
      edgeFor moved = served.route.currentEdge?) :
    Changes d p (p.rehome id node edgeFor).1 := by
  cases hgroup : p.registry.group? id with
  | none =>
      simp only [rehome, hgroup]
      exact .refl
  | some group =>
      have hrelease : Changes d p (p.releaseBooking id) := .single (.release p id)
      rcases h.rehome_cases hgroup node edgeFor with
        ⟨fault, heq, -⟩ | ⟨address, route, relocation, haddress, hroute, heq⟩
      · rw [heq]
        exact hrelease
      · have hreleased := group?_releaseBooking hgroup
        -- The group gave its booking back, so it may be redirected and booked anew.
        let moved := (p.releaseBooking id).redirected id group node address route
        let served := { group with booking := none }.servedFrom node address route
        have hserved : moved.registry.group? id = some served :=
          Registry.group?_modify_self hreleased _
        have hmoved : Changes d (p.releaseBooking id) moved :=
          .tail (.single (.redirect hreleased rfl hroute haddress)) (.aside _ _ _ _ _ _)
        have hbook : Change d moved (moved.bookGroup id (edgeFor moved)) := by
          rw [hedge moved group served hgroup hserved rfl hroute]
          exact .book hserved rfl
        rw [heq]
        exact (hrelease.trans hmoved).tail hbook

theorem group?_bookGroup_of_ne {id' : GroupId} (hne : id ≠ id') (edge : Option Edge) :
    (p.bookGroup id edge).registry.group? id' = p.registry.group? id' := by
  unfold Placement.bookGroup
  split <;> exact Registry.group?_modify_of_ne hne _

/-- Re-homing a group leaves all others alone. -/
theorem Coherent.group?_rehome_of_ne (h : Coherent d p) {id' : GroupId} (hne : id ≠ id')
    (node : NodeId) (edgeFor : Placement α → Option Edge) :
    (p.rehome id node edgeFor).1.registry.group? id' = p.registry.group? id' := by
  have hrelease : (p.releaseBooking id).registry.group? id' = p.registry.group? id' := by
    rw [registry_releaseBooking, Registry.group?_modify_of_ne hne]
  cases hgroup : p.registry.group? id with
  | none => simp only [rehome, hgroup]
  | some group =>
      rcases h.rehome_cases hgroup node edgeFor with ⟨fault, heq, -⟩ | ⟨_, _, _, -, -, heq⟩
      · rw [heq]
        exact hrelease
      · rw [heq]
        dsimp only
        rw [group?_bookGroup_of_ne hne, ← hrelease]
        exact Registry.group?_modify_of_ne hne _

end Placement

end StreamPlacement
