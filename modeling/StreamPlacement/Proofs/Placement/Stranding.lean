import StreamPlacement.Proofs.Placement.Bookings

/-!
What a redirection by itself does to the books.

Re-homing gives the booking of a group back, redirects the group and books it anew. A redirection
that is asked for by itself does only the second: the route goes elsewhere and the booking stays.
The books balance even so, but the booking is on the first hop of the new route only if that was the
first hop before. If it was not, the next stream that is booked for the group takes the place of
the booking, and the streams it was for are part of the load for good, with no group to give them
back.
-/

namespace StreamPlacement

/-- The edge that the stream of a viewer was booked on. -/
def Admission.booked? : Admission → Option Edge
  | .accepted _ edge => edge
  | .exceeded _ _ => none

/-! ### Joining a group -/

section

variable {α : Type} {p q : Placement α} {id : GroupId} {group : Group}

/-- Nobody founds a group that is there. -/
theorem Registry.enroll_known {t : Topology α} {book : AddressBook} {registry registry' : Registry}
    {directory directory' : Directory} {accessPoint requested : NodeId} {content : ContentId}
    {user : UserId} (hgroup : registry.group? id = some group)
    (henroll : registry.enroll t book directory accessPoint requested content user =
      .ok (id, registry', directory')) :
    ∃ viewer, registry' = registry.modify id (·.addViewer viewer) := by
  obtain ⟨attachment, -, ⟨-, hjoin, -⟩ | ⟨-, route, address, -, hid, -⟩⟩ :=
    Registry.enroll_cases henroll
  · exact ⟨_, hjoin⟩
  · obtain rfl : id = ⟨registry.size⟩ := hid
    rw [Registry.group?_size] at hgroup
    cases hgroup

variable [Quantity α]

namespace Placement

/-- A viewer that joins a group has a stream booked on the first hop of its route, or none. -/
theorem admitViewer_known {accessPoint requested : NodeId} {content : ContentId} {user : UserId}
    {admission : Admission} (hgroup : p.registry.group? id = some group)
    (harrive : p.admitViewer accessPoint requested content user = .ok (admission, q))
    (hjoins : admission.group = id) :
    ∃ viewer directory tally,
      (admission.booked? = none ∧
        q = { p with registry := p.registry.modify id (·.addViewer viewer), directory, tally }) ∨
      ∃ e, group.route.currentEdge? = some e ∧ admission.booked? = some e ∧
        q = { p with
          topology := p.topology.allocate e
          registry := p.registry.modify id fun group => (group.addViewer viewer).bookStream e
          directory
          tally } := by
  obtain ⟨id', registry, directory, henroll, hcases⟩ := admitViewer_cases harrive
  have hid : id' = id := by
    rcases hcases with ⟨-, rfl, -⟩ | ⟨e, -, ⟨rfl, -⟩ | ⟨rfl, -⟩⟩ <;> exact hjoins
  subst hid
  obtain ⟨viewer, rfl⟩ := Registry.enroll_known hgroup henroll
  rw [Registry.group?_modify_self hgroup, Option.bind_some] at hcases
  rcases hcases with ⟨-, rfl, rfl⟩ | ⟨e, hfirst, ⟨rfl, rfl⟩ | ⟨rfl, rfl⟩⟩
  · exact ⟨viewer, directory, _, .inl ⟨rfl, rfl⟩⟩
  · exact ⟨viewer, directory, _, .inr ⟨e, hfirst, rfl, by rw [Registry.modify_modify]⟩⟩
  · exact ⟨viewer, directory, _, .inl ⟨rfl, rfl⟩⟩

theorem currentEdge?_of_booked? {accessPoint requested : NodeId} {content : ContentId}
    {user : UserId} {admission : Admission} (hgroup : p.registry.group? id = some group)
    (harrive : p.admitViewer accessPoint requested content user = .ok (admission, q))
    (hjoins : admission.group = id) {e : Edge} (hedge : admission.booked? = some e) :
    group.route.currentEdge? = some e := by
  obtain ⟨-, -, -, ⟨hnone, -⟩ | ⟨e', hfirst, hbooked, -⟩⟩ :=
    admitViewer_known hgroup harrive hjoins
  · rw [hnone] at hedge
    cases hedge
  · rw [hfirst, ← hbooked, hedge]

end Placement

end

/-! ### Streams that belong to nobody -/

variable {d : Deployment Rat} {p q : Placement Rat} {id : GroupId} {group : Group}

/-- Where loads and bookings were in step, a viewer that joins a group leaves them apart by what the
group has dropped. -/
theorem Placement.load_admitViewer {accessPoint requested : NodeId} {content : ContentId}
    {user : UserId} {admission : Admission} (hbalanced : Balanced p.topology p.registry)
    (hgroup : p.registry.group? id = some group)
    (hinside : ∀ e, group.route.currentEdge? = some e → LoadTable.Inside p.topology.size e)
    (harrive : p.admitViewer accessPoint requested content user = .ok (admission, q))
    (hjoins : admission.group = id) (e' : Edge) :
    q.topology.load e' = p.topology.unit *
      (q.registry.streamsOn e' + (admission.booked?.elim 0 (group.dropped · e') : Nat)) := by
  obtain ⟨viewer, directory, tally, ⟨hnone, rfl⟩ | ⟨e, hfirst, hbooked, rfl⟩⟩ :=
    admitViewer_known hgroup harrive hjoins
  · have hstreams := Registry.streamsOn_modify hgroup (·.addViewer viewer) e'
    have hsame : (p.registry.modify id (·.addViewer viewer)).streamsOn e' =
        p.registry.streamsOn e' := Nat.add_right_cancel hstreams
    rw [hnone, hbalanced e', hsame]
    simp
  · have hstreams := Registry.streamsOn_modify hgroup
      (fun group => (group.addViewer viewer).bookStream e) e'
    have hdropped := streamsOn_bookStream_add_dropped (group.addViewer viewer) e e'
    have htotal : (p.registry.modify id fun group =>
          (group.addViewer viewer).bookStream e).streamsOn e' + group.dropped e e' =
        p.registry.streamsOn e' + if e = e' then 1 else 0 := by
      have hstays : (group.addViewer viewer).streamsOn e' = group.streamsOn e' := rfl
      have hloses : (group.addViewer viewer).dropped e e' = group.dropped e e' := rfl
      omega
    show (p.topology.allocate e).load e' = _
    rw [Topology.load_allocate (hinside e hfirst), hbalanced e', hbooked, Option.elim_some,
      ← Nat.cast_add, htotal]
    by_cases he : e = e' <;> simp [he, mul_add]

/-- The streams on `e` that are left to nobody when a viewer joins a group that was redirected to
`route`. -/
def Group.stranded (group : Group) (route : Route) (admission : Admission) (e : Edge) : Nat :=
  if admission.booked?.isSome ∧ route.currentEdge? ≠ group.route.currentEdge? then
    group.streamsOn e
  else 0

namespace Deployment.Serves

/-- What is booked has at least one stream. -/
theorem streamsOn_eq_zero_iff (h : d.Serves group) :
    (∀ e, group.streamsOn e = 0) ↔ group.booking = none := by
  constructor
  · intro hzero
    rw [Option.eq_none_iff_forall_ne_some]
    intro booking hbooking
    obtain ⟨-, hpos, -⟩ := h.booked booking hbooking
    have hnone := hzero booking.edge
    rw [Group.streamsOn_of_some hbooking, if_pos rfl] at hnone
    omega
  · intro hfree e
    exact Group.streamsOn_of_none hfree e

theorem stranded_eq_zero_iff (h : d.Serves group) (route : Route) (admission : Admission) :
    (∀ e, group.stranded route admission e = 0) ↔ group.booking = none ∨
      route.currentEdge? = group.route.currentEdge? ∨ admission.booked? = none := by
  by_cases hloses : admission.booked?.isSome ∧ route.currentEdge? ≠ group.route.currentEdge?
  · have hsome : admission.booked? ≠ none := Option.isSome_iff_ne_none.mp hloses.1
    simp only [Group.stranded, if_pos hloses, hloses.2, hsome, or_false]
    exact h.streamsOn_eq_zero_iff
  · simp only [Group.stranded, if_neg hloses, true_iff, implies_true]
    cases hedge : admission.booked? with
    | none => exact .inr (.inr rfl)
    | some e => exact .inr (.inl (by simpa [hedge] using hloses))

/-- A group that is booked on its first hop drops the booking, all of it, when it books on the first
hop of another route. -/
theorem dropped_eq_stranded (h : d.Serves group) {route : Route} {admission : Admission}
    (hfirst : ∀ e, admission.booked? = some e → route.currentEdge? = some e) (e' : Edge) :
    admission.booked?.elim 0 (group.dropped · e') = group.stranded route admission e' := by
  cases hedge : admission.booked? with
  | none => simp [Group.stranded, hedge]
  | some e =>
      rw [Option.elim_some, Group.dropped, Group.stranded, hedge, hfirst e hedge]
      cases hbooking : group.booking with
      | none => rw [Group.streamsOn_of_none hbooking, ite_self, ite_self]
      | some booking =>
          rw [(h.booked booking hbooking).1, Option.map_some]
          by_cases he : e = booking.edge <;> simp [he, eq_comm]

end Deployment.Serves

namespace Deployment

/-- After any run a group may be redirected to any node that has a way to its access point, and the
load of every pair of nodes is still the demand of all streams that are booked on it. The booking
stays what it was, so it is on the first hop of the new route only if there is none or the first hop
is the same. If it is not, and a viewer that joins the group then has a stream booked, the streams
of the old booking stay in the load of its edge and are booked for nobody; all other viewers leave
loads and bookings in step. -/
theorem redirect_after (d : Deployment Rat) (ops : List Operation) (hunit : 0 < d.topology.unit)
    {id : GroupId} {group : Group} {node : NodeId} {relocation : Relocation} {q : Placement Rat}
    (hgroup : (d.after ops).registry.group? id = some group)
    (hredirect : (d.after ops).redirect id node group.content = .ok (relocation, q)) :
    (∀ e, q.topology.load e =
      d.topology.unit * (q.registry.groups.map (·.streamsOn e)).sum) ∧
    ∃ moved, q.registry.group? id = some moved ∧ moved.booking = group.booking ∧
      d.topology.route node group.accessPoint = .ok moved.route ∧
      ((∀ booking, moved.booking = some booking →
          moved.route.currentEdge? = some booking.edge) ↔
        group.booking = none ∨ moved.route.currentEdge? = group.route.currentEdge?) ∧
      ∀ accessPoint requested content user admission r,
        q.admitViewer accessPoint requested content user = .ok (admission, r) →
        admission.group = id →
        (∀ e, r.topology.load e = d.topology.unit *
          ((r.registry.groups.map (·.streamsOn e)).sum +
            (group.stranded moved.route admission e : Nat))) ∧
        ((∀ e, r.topology.load e =
            d.topology.unit * (r.registry.groups.map (·.streamsOn e)).sum) ↔
          group.booking = none ∨ moved.route.currentEdge? = group.route.currentEdge? ∨
            admission.booked? = none) := by
  have hcoherent := d.coherent_after ops
  have hbalanced : Balanced (d.after ops).topology (d.after ops).registry :=
    (Placement.coherent_start d).balanced_changes hunit d.balanced_start (d.changes_after ops)
  have hserved := hcoherent.served hgroup
  rcases hcoherent.redirect_cases hgroup node with
    ⟨fault, hfault, -⟩ | ⟨address, route, _, haddress, hroute, hok⟩
  · rw [hfault] at hredirect
    cases hredirect
  obtain ⟨-, rfl⟩ := Prod.mk.inj (Except.ok.inj (hok.symm.trans hredirect))
  let moved := group.servedFrom node address route
  have hmoved : ((d.after ops).redirected id group node address route).registry.group? id =
      some moved := Registry.group?_modify_self hgroup _
  have hunit' : (d.after ops).topology.unit = d.topology.unit := hcoherent.network.unit_eq
  have hbalanced' : Balanced ((d.after ops).redirected id group node address route).topology
      ((d.after ops).redirected id group node address route).registry :=
    hbalanced.modify hgroup rfl fun _ => rfl
  refine ⟨fun e => hunit' ▸ hbalanced' e, moved, hmoved, rfl, hroute, ?_, ?_⟩
  · show (∀ booking, group.booking = some booking → route.currentEdge? = some booking.edge) ↔
      group.booking = none ∨ route.currentEdge? = group.route.currentEdge?
    cases hbooking : group.booking with
    | none => simp
    | some booking =>
        rw [(hserved.booked booking hbooking).1]
        simp
  · intro accessPoint requested content user admission r harrive hjoins
    have hload := Placement.load_admitViewer hbalanced' hmoved
      (fun e hfirst => hcoherent.network.size_eq ▸ d.inside_of_route hroute hfirst) harrive hjoins
    have hfirst : ∀ e, admission.booked? = some e → route.currentEdge? = some e := fun e hedge =>
      Placement.currentEdge?_of_booked? hmoved harrive hjoins hedge
    have htotal : ∀ e, r.topology.load e = d.topology.unit *
        ((r.registry.groups.map (·.streamsOn e)).sum +
          (group.stranded route admission e : Nat)) := by
      intro e
      rw [← hserved.dropped_eq_stranded hfirst, ← hunit']
      exact hload e
    refine ⟨htotal, .trans (forall_congr' fun e => ?_)
      (hserved.stranded_eq_zero_iff route admission)⟩
    rw [htotal e, mul_right_inj' hunit.ne', add_eq_left, Nat.cast_eq_zero]

/-- A viewer comes to the server at the start of the line. -/
def line.far : List Operation := [.arrive ⟨2⟩ ⟨0⟩ ⟨7⟩ ⟨0⟩]

/-- A viewer comes to the server in the middle of the line. -/
def line.near : List Operation := [.arrive ⟨2⟩ ⟨1⟩ ⟨7⟩ ⟨0⟩]

/-- What is observed of a result is observed of a success. -/
theorem exists_ok_of_map {ε β γ : Type} {result : Except ε β} {observe : β → γ} {seen : γ}
    (h : result.toOption.map observe = some seen) : ∃ x, result = .ok x ∧ observe x = seen := by
  cases result with
  | error _ => cases h
  | ok x => exact ⟨x, rfl, Option.some.inj h⟩

/-- A group that is redirected to the middle of the line stays booked on the first link, which is no
longer on its route; and when the other viewer joins it, the load of the first link is that of a
stream that no group has booked. -/
theorem redirect_strands_line :
    ∃ relocation q r, (line.after line.far).redirect ⟨0⟩ ⟨1⟩ ⟨7⟩ = .ok (relocation, q) ∧
      (q.registry.group? ⟨0⟩).map (fun group => (group.booking, group.route.currentEdge?)) =
        some (some ⟨(⟨0⟩, ⟨1⟩), 1⟩, some (⟨1⟩, ⟨2⟩)) ∧
      q.admitViewer ⟨2⟩ ⟨0⟩ ⟨7⟩ ⟨1⟩ = .ok (.accepted ⟨0⟩ (some (⟨1⟩, ⟨2⟩)), r) ∧
      r.topology.load (⟨0⟩, ⟨1⟩) = 1 ∧
      (r.registry.groups.map (·.streamsOn (⟨0⟩, ⟨1⟩))).sum = 0 := by
  have hmoved : ((line.after line.far).redirect ⟨0⟩ ⟨1⟩ ⟨7⟩).toOption.map (fun (_, q) =>
      (q.registry.group? ⟨0⟩).map fun group => (group.booking, group.route.currentEdge?)) =
      some (some (some ⟨(⟨0⟩, ⟨1⟩), 1⟩, some (⟨1⟩, ⟨2⟩))) := by decide +kernel
  have hjoined : ((line.after line.far).redirect ⟨0⟩ ⟨1⟩ ⟨7⟩).toOption.bind (fun (_, q) =>
      (q.admitViewer ⟨2⟩ ⟨0⟩ ⟨7⟩ ⟨1⟩).toOption.map fun (admission, r) =>
        (admission, r.topology.load (⟨0⟩, ⟨1⟩),
          (r.registry.groups.map (·.streamsOn (⟨0⟩, ⟨1⟩))).sum)) =
      some (.accepted ⟨0⟩ (some (⟨1⟩, ⟨2⟩)), 1, 0) := by decide +kernel
  obtain ⟨⟨relocation, q⟩, hredirect, hgroup⟩ := exists_ok_of_map hmoved
  rw [hredirect] at hjoined
  obtain ⟨⟨admission, r⟩, harrive, hseen⟩ := exists_ok_of_map hjoined
  obtain ⟨rfl, hloads⟩ := Prod.mk.inj hseen
  obtain ⟨hload, hstreams⟩ := Prod.mk.inj hloads
  exact ⟨relocation, q, r, hredirect, hgroup, harrive, hload, hstreams⟩

/-- A group that is redirected to where it is served already keeps its first hop, and both streams
on it are booked. -/
theorem redirect_spares_line :
    0 < line.topology.unit ∧ ∃ relocation q admission r,
      (line.after line.near).redirect ⟨0⟩ ⟨1⟩ ⟨7⟩ = .ok (relocation, q) ∧
      q.admitViewer ⟨2⟩ ⟨0⟩ ⟨7⟩ ⟨1⟩ = .ok (admission, r) ∧
      r.topology.load (⟨1⟩, ⟨2⟩) = 1 * (2 : Nat) := by
  have hunit : 0 < line.topology.unit := by decide +kernel
  have hbefore : ((line.after line.near).registry.group? ⟨0⟩).map
      (fun group => (group.content, group.route.currentEdge?)) =
        some (⟨7⟩, some (⟨1⟩, ⟨2⟩)) := by decide +kernel
  have hmoved : ((line.after line.near).redirect ⟨0⟩ ⟨1⟩ ⟨7⟩).toOption.map (fun (_, q) =>
      (q.registry.group? ⟨0⟩).map fun group => group.route.currentEdge?) =
      some (some (some (⟨1⟩, ⟨2⟩))) := by decide +kernel
  have hjoined : ((line.after line.near).redirect ⟨0⟩ ⟨1⟩ ⟨7⟩).toOption.bind (fun (_, q) =>
      (q.admitViewer ⟨2⟩ ⟨0⟩ ⟨7⟩ ⟨1⟩).toOption.map fun (admission, r) =>
        (admission.group, (r.registry.groups.map (·.streamsOn (⟨1⟩, ⟨2⟩))).sum)) =
      some (⟨0⟩, 2) := by decide +kernel
  obtain ⟨group, hgroup, hfirst⟩ := Option.map_eq_some_iff.mp hbefore
  obtain ⟨hcontent, hfirst⟩ := Prod.mk.inj hfirst
  obtain ⟨⟨relocation, q⟩, hredirect, hnext⟩ := exists_ok_of_map hmoved
  rw [hredirect] at hjoined
  obtain ⟨⟨admission, r⟩, harrive, hseen⟩ := exists_ok_of_map hjoined
  obtain ⟨hjoins, hstreams⟩ := Prod.mk.inj hseen
  have hredirect' : (line.after line.near).redirect ⟨0⟩ ⟨1⟩ group.content =
      .ok (relocation, q) := hcontent ▸ hredirect
  obtain ⟨-, moved, hgroup', -, -, -, hafter⟩ :=
    redirect_after line line.near hunit hgroup hredirect'
  have hsame : moved.route.currentEdge? = group.route.currentEdge? := by
    have hfirst' : (q.registry.group? ⟨0⟩).map (·.route.currentEdge?) =
        some (some (⟨1⟩, ⟨2⟩)) := hnext
    rw [hgroup', Option.map_some] at hfirst'
    exact (Option.some.inj hfirst').trans hfirst.symm
  have hbalanced := (hafter _ _ _ _ admission r harrive hjoins).2.mpr (.inr (.inl hsame))
  refine ⟨hunit, relocation, q, admission, r, hredirect, harrive, ?_⟩
  rw [hbalanced, hstreams]
  rfl

end Deployment

end StreamPlacement
