import StreamPlacement.Proofs.Placement.Operations

/-!
What is booked, and for whom.

The topology holds one load per directed edge and each group holds its own booking, and operations
write to both in separate steps. Over the exact rationals the two sides always agree: the load of an
edge is the demand of the streams that the groups have booked on it. In particular a group never
gives back more than there is, so the floor of a load at zero is never reached from below.
-/

namespace StreamPlacement

variable {d : Deployment Rat}

/-- The load of every edge is the demand of all streams booked on it. -/
def Balanced (t : Topology Rat) (registry : Registry) : Prop :=
  ∀ e, t.load e = t.unit * registry.streamsOn e

/-! ### One group at a time -/

/-- A group's booking and the loads may change together. -/
theorem Balanced.modify {t t' : Topology Rat} {registry : Registry} (h : Balanced t registry)
    {id : GroupId} {group : Group} {change : Group → Group}
    (hgroup : registry.group? id = some group) (hunit : t'.unit = t.unit)
    (hload : ∀ e, t'.load e + t.unit * group.streamsOn e =
      t.load e + t.unit * (change group).streamsOn e) :
    Balanced t' (registry.modify id change) := by
  intro e
  have hstreams : ((registry.modify id change).streamsOn e : Rat) + group.streamsOn e =
      registry.streamsOn e + (change group).streamsOn e := by
    exact_mod_cast Registry.streamsOn_modify hgroup change e
  apply add_right_cancel (b := t.unit * group.streamsOn e)
  calc
    t'.load e + t.unit * group.streamsOn e =
        t.unit * registry.streamsOn e + t.unit * (change group).streamsOn e := by
      rw [hload e, h e]
    _ = t.unit * ((registry.modify id change).streamsOn e + group.streamsOn e) := by
      rw [hstreams, mul_add]
    _ = t'.unit * (registry.modify id change).streamsOn e + t.unit * group.streamsOn e := by
      rw [hunit, mul_add]

/-- The first hop of a route lies in the table of loads. -/
theorem Deployment.inside_of_route {source dest : NodeId} {route : Route}
    (hroute : d.topology.route source dest = .ok route) {e : Edge}
    (hfirst : route.currentEdge? = some e) : LoadTable.Inside d.topology.size e := by
  obtain ⟨-, hdest, hbest, -⟩ := d.wired.route_eq_ok_iff.mp hroute
  have hinside := d.wired.walk_inside hbest.walk hdest
  unfold Route.currentEdge? at hfirst
  split at hfirst
  · next u v hhere hnext =>
      obtain rfl := Option.some.inj hfirst
      exact ⟨hinside u (List.mem_of_getElem? hhere), hinside v (List.mem_of_getElem? hnext)⟩
  · cases hfirst

theorem Deployment.Serves.inside {group : Group} (h : d.Serves group) {e : Edge}
    (hfirst : group.route.currentEdge? = some e) : LoadTable.Inside d.topology.size e :=
  Deployment.inside_of_route h.routed hfirst

/-- The streams on `e'` that a group no longer knows of once it has booked one on `e`. -/
def Group.dropped (group : Group) (e e' : Edge) : Nat :=
  if group.booking.map Booking.edge = some e then 0 else group.streamsOn e'

/-- A stream that is booked comes on top of a booking on the same edge, and instead of a booking on
another. -/
theorem streamsOn_bookStream_add_dropped (group : Group) (e e' : Edge) :
    (group.bookStream e).streamsOn e' + group.dropped e e' =
      group.streamsOn e' + if e = e' then 1 else 0 := by
  rw [Group.streamsOn_of_some (rfl : (group.bookStream e).booking = some _), Group.dropped]
  dsimp only
  cases hbooking : group.booking with
  | none => simp [Group.streamsOn_of_none hbooking]
  | some booking =>
      by_cases hedge : booking.edge = e
      · subst hedge
        rw [Group.streamsOn_of_some hbooking]
        by_cases he : booking.edge = e' <;> simp [he]
      · simp [hedge, Nat.add_comm]

theorem streamsOn_bookStream {group : Group} (h : d.Serves group) {e : Edge}
    (hfirst : group.route.currentEdge? = some e) (e' : Edge) :
    (group.bookStream e).streamsOn e' = group.streamsOn e' + if e = e' then 1 else 0 := by
  -- A booking that is there already is on the first hop, so nothing is replaced.
  have hkept : group.dropped e e' = 0 := by
    rw [Group.dropped]
    cases hbooking : group.booking with
    | none => rw [Group.streamsOn_of_none hbooking, ite_self]
    | some booking =>
        obtain ⟨hedge, -, -⟩ := h.booked booking hbooking
        exact if_pos (hedge.symm.trans hfirst)
  rw [← streamsOn_bookStream_add_dropped, hkept, Nat.add_zero]

namespace Placement

variable {p q : Placement Rat}

theorem Coherent.balanced_releaseBooking (h : Coherent d p) (hunit : 0 < d.topology.unit)
    (hbalanced : Balanced p.topology p.registry) (id : GroupId) :
    Balanced (p.releaseBooking id).topology (p.releaseBooking id).registry := by
  cases hgroup : p.registry.group? id with
  | none =>
      simp only [Placement.releaseBooking, hgroup, Option.bind_none]
      exact hbalanced
  | some group =>
      cases hbooking : group.booking with
      | none =>
          rw [releaseBooking_of_free hgroup hbooking]
          exact hbalanced
      | some booking =>
          simp only [Placement.releaseBooking, hgroup, hbooking, Option.bind_some]
          have hserves := h.served hgroup
          have hinside : LoadTable.Inside p.topology.size booking.edge :=
            h.network.size_eq ▸ hserves.inside (hserves.booked booking hbooking).1
          have hpos : 0 ≤ p.topology.unit := by
            rw [h.network.unit_eq]
            exact hunit.le
          -- What one group gives back is part of what all groups have on the edge.
          have henough : p.topology.unit * booking.streams ≤ p.topology.load booking.edge := by
            have hle := Registry.streamsOn_le hgroup booking.edge
            rw [Group.streamsOn_of_some hbooking, if_pos rfl] at hle
            rw [hbalanced booking.edge]
            exact mul_le_mul_of_nonneg_left (by exact_mod_cast hle) hpos
          refine hbalanced.modify hgroup rfl fun e => ?_
          rw [Topology.load_release hinside henough, Group.streamsOn_of_some hbooking,
            Group.streamsOn_of_none rfl]
          by_cases he : booking.edge = e <;> simp [he]

theorem Coherent.balanced_bookGroup (h : Coherent d p)
    (hbalanced : Balanced p.topology p.registry) {id : GroupId} {group : Group}
    (hgroup : p.registry.group? id = some group) (hfree : group.booking = none) :
    Balanced (p.bookGroup id group.route.currentEdge?).topology
      (p.bookGroup id group.route.currentEdge?).registry := by
  simp only [Placement.bookGroup, hgroup]
  cases hfirst : group.route.currentEdge? with
  | none =>
      refine hbalanced.modify hgroup rfl fun e => ?_
      rw [Group.streamsOn_of_none hfree, Group.streamsOn_of_none rfl]
  | some edge =>
      have hinside : LoadTable.Inside p.topology.size edge :=
        h.network.size_eq ▸ (h.served hgroup).inside hfirst
      refine hbalanced.modify hgroup (Topology.sameNetwork_allocateMany _ _ _).unit_eq
        fun e => ?_
      rw [Topology.load_allocateMany hinside, Group.streamsOn_of_none hfree,
        Group.streamsOn_of_some rfl]
      by_cases he : edge = e <;> simp [he]

/-- Every change keeps loads and bookings in step. -/
theorem Coherent.balanced_change (h : Coherent d p) (hunit : 0 < d.topology.unit)
    (hbalanced : Balanced p.topology p.registry) (hchange : Change d p q) :
    Balanced q.topology q.registry := by
  cases hchange with
  | join _ present => exact hbalanced.modify present rfl fun _ => rfl
  | @found founded _ _ _ free =>
      intro e
      rw [Registry.streamsOn_append, Group.streamsOn_of_none free, Nat.add_zero]
      exact hbalanced e
  | @stream id group edge present first _ =>
      have hserves := h.served present
      have hinside : LoadTable.Inside p.topology.size edge :=
        h.network.size_eq ▸ hserves.inside first
      refine hbalanced.modify present rfl fun e => ?_
      rw [Topology.load_allocate hinside, streamsOn_bookStream hserves first]
      by_cases he : edge = e
      · simp only [if_pos he, Nat.cast_add, Nat.cast_one]
        ring
      · simp [he]
  | clear edge =>
      intro e
      show (p.topology.reset edge).load e =
        p.topology.unit * (p.registry.clearBookings edge).streamsOn e
      rw [Topology.load_reset, Registry.streamsOn_clearBookings]
      by_cases he : edge = e
      · simp [he]
      · rw [if_neg he, if_neg he]
        exact hbalanced e
  | release id => exact h.balanced_releaseBooking hunit hbalanced id
  | redirect present _ _ _ => exact hbalanced.modify present rfl fun _ => rfl
  | book present free => exact h.balanced_bookGroup hbalanced present free
  | aside => exact hbalanced

theorem Coherent.balanced_changes (h : Coherent d p) (hunit : 0 < d.topology.unit)
    (hbalanced : Balanced p.topology p.registry) (hchanges : Changes d p q) :
    Balanced q.topology q.registry := by
  induction hchanges with
  | refl => exact hbalanced
  | tail hbefore hchange ih => exact (h.changes hbefore).1.balanced_change hunit ih hchange

end Placement

namespace Deployment

theorem balanced_start (d : Deployment Rat) : Balanced d.start.topology d.start.registry := by
  intro e
  obtain ⟨-, -, htopology⟩ := Topology.build_eq_ok_iff.mp d.built
  have hload : d.topology.load e = 0 := by
    rw [htopology]
    exact LoadTable.get_zero d.size e
  have hstreams : d.start.registry.streamsOn e = 0 := rfl
  rw [hstreams, Nat.cast_zero, mul_zero]
  exact hload

/-- After any run a booking is on the first hop of its group's own route, with at least one stream
and at most one per viewer, and the load of every pair of nodes is the demand of all streams that
are booked on it. -/
theorem bookings_after (d : Deployment Rat) (ops : List Operation)
    (hunit : 0 < d.topology.unit) :
    (∀ group ∈ (d.after ops).registry.groups, ∀ booking, group.booking = some booking →
      group.route.currentEdge? = some booking.edge ∧ 1 ≤ booking.streams ∧
        booking.streams ≤ group.size) ∧
    ∀ e, (d.after ops).topology.load e =
      d.topology.unit * ((d.after ops).registry.groups.map (·.streamsOn e)).sum := by
  have hcoherent := d.coherent_after ops
  have hbalanced := (Placement.coherent_start d).balanced_changes hunit d.balanced_start
    (d.changes_after ops)
  constructor
  · intro group hmem
    obtain ⟨id, hgroup⟩ := Registry.mem_groups_iff.mp hmem
    exact (hcoherent.served hgroup).booked
  · intro e
    rw [hbalanced e, hcoherent.network.unit_eq]
    rfl

/-- Once the first link has been relieved, both streams are booked on the second. -/
theorem bookings_on_line :
    0 < line.topology.unit ∧
      (line.after line.rush).topology.load (⟨1⟩, ⟨2⟩) = 1 * (2 : Nat) ∧
      (line.after line.rush).topology.load (⟨0⟩, ⟨1⟩) = 1 * (0 : Nat) := by
  have hunit : 0 < line.topology.unit := by decide +kernel
  obtain ⟨-, hload⟩ := bookings_after line line.rush hunit
  have hsecond : ((line.after line.rush).registry.groups.map (·.streamsOn (⟨1⟩, ⟨2⟩))).sum = 2 := by
    decide +kernel
  have hfirst : ((line.after line.rush).registry.groups.map (·.streamsOn (⟨0⟩, ⟨1⟩))).sum = 0 := by
    decide +kernel
  refine ⟨hunit, ?_, ?_⟩
  · rw [hload, hsecond]
    rfl
  · rw [hload, hfirst]
    rfl

end Deployment

end StreamPlacement
