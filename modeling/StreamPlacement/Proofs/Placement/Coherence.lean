import Mathlib.Logic.Relation
import StreamPlacement.Proofs.Audience.Registry
import StreamPlacement.Proofs.Backhaul.Booking
import StreamPlacement.Proofs.Container.OrderedMap
import StreamPlacement.Proofs.Placement.Run

/-!
What groups, directory and bookings have to do with each other, and the small changes that keep it
so.

Every operation is made of a few kinds of changes to the groups, the directory and the loads. A
change comes with the reason why it is in order, and each of them leaves a coherent state coherent;
what an operation does then only has to be read off as a sequence of them.
-/

namespace StreamPlacement

variable {α : Type} [Quantity α]

/-! ### Coherent states -/

/-- The group has viewers, is routed from its server down to its access point, knows the address of
the server, and has its streams, if any, booked on the first hop. -/
structure Deployment.Serves (d : Deployment α) (group : Group) : Prop where
  routed : d.topology.route group.server group.accessPoint = .ok group.route
  addressed : d.book.nodeAddress group.server = .ok group.serverAddress
  keyed : d.grouping.keyFor group.key.broadcast group.content = group.key
  viewed : 0 < group.size
  booked : ∀ booking, group.booking = some booking →
    group.route.currentEdge? = some booking.edge ∧ 1 ≤ booking.streams ∧
      booking.streams ≤ group.size

/-- Every group is served, under a key of its own, and the directory knows these keys and no
others. -/
structure Placement.Coherent (d : Deployment α) (p : Placement α) : Prop where
  network : p.topology.SameNetwork d.topology
  book_eq : p.book = d.book
  grouping_eq : p.registry.grouping = d.grouping
  numbered : ∀ {id group}, p.registry.group? id = some group → group.id = id
  served : ∀ {id group}, p.registry.group? id = some group → d.Serves group
  listed : ∀ {id group}, p.registry.group? id = some group →
    p.directory.get? group.key = some group.serverAddress
  distinct : ∀ {id id' group group'}, p.registry.group? id = some group →
    p.registry.group? id' = some group' → group.key = group'.key → id = id'
  covered : ∀ key ∈ p.directory.keys, ∃ id group,
    p.registry.group? id = some group ∧ group.key = key

/-- Every group is still there, under the same number and the same key. -/
def Placement.Kept (p q : Placement α) : Prop :=
  ∀ {id group}, p.registry.group? id = some group →
    ∃ group', q.registry.group? id = some group' ∧ group'.key = group.key

/-! ### Changes -/

/-- A group that is served from `node` now. -/
def Group.servedFrom (group : Group) (node : NodeId) (address : Address) (route : Route) : Group :=
  { group with route, server := node, serverAddress := address }

/-- The changes that operations are made of. -/
inductive Placement.Change (d : Deployment α) : Placement α → Placement α → Prop
  | join {p : Placement α} {id : GroupId} {group : Group} (viewer : Viewer)
      (present : p.registry.group? id = some group) :
      Change d p { p with registry := p.registry.modify id (·.addViewer viewer) }
  | found {p : Placement α} {founded : Group} (numbered : founded.id = ⟨p.registry.size⟩)
      (fresh : ∀ {id group}, p.registry.group? id = some group → group.key ≠ founded.key)
      (serves : d.Serves founded) (free : founded.booking = none) :
      Change d p { p with
        registry := { p.registry with groups := p.registry.groups ++ [founded] }
        directory := p.directory.insert founded.key founded.serverAddress }
  | stream {p : Placement α} {id : GroupId} {group : Group} {e : Edge}
      (present : p.registry.group? id = some group) (first : group.route.currentEdge? = some e)
      (spare : ∀ booking, group.booking = some booking → booking.streams < group.size) :
      Change d p { p with
        topology := p.topology.allocate e
        registry := p.registry.modify id (·.bookStream e) }
  | clear (p : Placement α) (e : Edge) : Change d p (p.clearEdge e)
  | release (p : Placement α) (id : GroupId) : Change d p (p.releaseBooking id)
  | redirect {p : Placement α} {id : GroupId} {group : Group} {node : NodeId} {address : Address}
      {route : Route} (present : p.registry.group? id = some group) (free : group.booking = none)
      (routed : d.topology.route node group.accessPoint = .ok route)
      (addressed : d.book.nodeAddress node = .ok address) :
      Change d p { p with
        registry := p.registry.modify id (·.servedFrom node address route)
        directory := p.directory.insert group.key address }
  | book {p : Placement α} {id : GroupId} {group : Group}
      (present : p.registry.group? id = some group) (free : group.booking = none) :
      Change d p (p.bookGroup id group.route.currentEdge?)
  | aside (p : Placement α) (servers : ServerPool) (strategy : Strategy) (tally : Tally)
      (requests : Array Solver.Request) (pending : List Solver.RequestId) :
      Change d p { p with servers, strategy, tally, requests, pending }

namespace Placement

variable {d : Deployment α} {p q r : Placement α}

omit [Quantity α] in
theorem Kept.refl (p : Placement α) : Kept p p := fun h => ⟨_, h, rfl⟩

omit [Quantity α] in
theorem Kept.trans (h : Kept p q) (h' : Kept q r) : Kept p r := by
  intro id group hgroup
  obtain ⟨group', hgroup', hkey⟩ := h hgroup
  obtain ⟨group'', hgroup'', hkey'⟩ := h' hgroup'
  exact ⟨group'', hgroup'', hkey'.trans hkey⟩

theorem coherent_start (d : Deployment α) : Coherent d d.start where
  network := .refl _
  book_eq := rfl
  grouping_eq := rfl
  numbered h := by simp [Deployment.start, start, Registry.group?] at h
  served h := by simp [Deployment.start, start, Registry.group?] at h
  listed h := by simp [Deployment.start, start, Registry.group?] at h
  distinct h := by simp [Deployment.start, start, Registry.group?] at h
  covered key h := by simp [Deployment.start, start, OrderedMap.keys] at h

/-! ### Changes in place -/

/-- Groups may be changed in place as long as each keeps its number and its key, is served, and is
what the directory sends its key to. -/
theorem Coherent.update (h : Coherent d p) (change : GroupId → Group → Group)
    (hnetwork : q.topology.SameNetwork p.topology) (hbook : q.book = p.book)
    (hgrouping : q.registry.grouping = p.registry.grouping)
    (hgroups : ∀ id, q.registry.group? id = (p.registry.group? id).map (change id))
    (hsame : ∀ {id group}, p.registry.group? id = some group →
      (change id group).id = group.id ∧ (change id group).key = group.key)
    (hserved : ∀ {id group}, p.registry.group? id = some group → d.Serves (change id group))
    (hlisted : ∀ {id group}, p.registry.group? id = some group →
      q.directory.get? group.key = some (change id group).serverAddress)
    (hkeys : ∀ key ∈ q.directory.keys, key ∈ p.directory.keys) :
    Coherent d q ∧ Kept p q := by
  -- A number stays with its group, so every group after the change can be looked up before it.
  have hback : ∀ {id group}, q.registry.group? id = some group →
      ∃ before, p.registry.group? id = some before ∧ change id before = group := by
    intro id group hgroup
    rw [hgroups] at hgroup
    exact Option.map_eq_some_iff.mp hgroup
  have hkept : Kept p q := by
    intro id group hgroup
    exact ⟨change id group, by rw [hgroups, hgroup]; rfl, (hsame hgroup).2⟩
  refine ⟨?_, hkept⟩
  constructor
  case network => exact hnetwork.trans h.network
  case book_eq => exact hbook.trans h.book_eq
  case grouping_eq => exact hgrouping.trans h.grouping_eq
  case numbered =>
    intro id group hgroup
    obtain ⟨before, hbefore, rfl⟩ := hback hgroup
    rw [(hsame hbefore).1, h.numbered hbefore]
  case served =>
    intro id group hgroup
    obtain ⟨before, hbefore, rfl⟩ := hback hgroup
    exact hserved hbefore
  case listed =>
    intro id group hgroup
    obtain ⟨before, hbefore, rfl⟩ := hback hgroup
    rw [(hsame hbefore).2, hlisted hbefore]
  case distinct =>
    intro id id' group group' hgroup hgroup' hkey
    obtain ⟨before, hbefore, rfl⟩ := hback hgroup
    obtain ⟨before', hbefore', rfl⟩ := hback hgroup'
    rw [(hsame hbefore).2, (hsame hbefore').2] at hkey
    exact h.distinct hbefore hbefore' hkey
  case covered =>
    intro key hkey
    obtain ⟨id, group, hgroup, rfl⟩ := h.covered key (hkeys key hkey)
    obtain ⟨group', hgroup', hkey'⟩ := hkept hgroup
    exact ⟨id, group', hgroup', hkey'⟩

/-- One group may be changed in place, and its entry in the directory with it. -/
theorem Coherent.modify (h : Coherent d p) {id : GroupId} {group : Group} {t : Topology α}
    {change : Group → Group} {directory : Directory}
    (hpresent : p.registry.group? id = some group) (ht : t.SameNetwork p.topology)
    (hsame : (change group).id = group.id ∧ (change group).key = group.key)
    (hserved : d.Serves (change group))
    (hlisted : directory.get? group.key = some (change group).serverAddress)
    (hothers : ∀ key, key ≠ group.key → directory.get? key = p.directory.get? key) :
    let q := { p with topology := t, registry := p.registry.modify id change, directory }
    Coherent d q ∧ Kept p q := by
  have hcases : ∀ {id' group'}, p.registry.group? id' = some group' →
      (id = id' ∧ group = group') ∨ id ≠ id' := by
    intro id' group' hgroup'
    by_cases hid : id = id'
    · subst hid
      exact .inl ⟨rfl, Option.some.inj (hpresent.symm.trans hgroup')⟩
    · exact .inr hid
  refine h.update (fun id' group' => if id = id' then change group' else group') ht rfl rfl
    (Registry.group?_modify p.registry id · change) ?_ ?_ ?_ ?_
  · intro id' group' hgroup'
    rcases hcases hgroup' with ⟨rfl, rfl⟩ | hne
    · rw [if_pos rfl]
      exact hsame
    · rw [if_neg hne]
      exact ⟨rfl, rfl⟩
  · intro id' group' hgroup'
    rcases hcases hgroup' with ⟨rfl, rfl⟩ | hne
    · rw [if_pos rfl]
      exact hserved
    · rw [if_neg hne]
      exact h.served hgroup'
  · intro id' group' hgroup'
    rcases hcases hgroup' with ⟨rfl, rfl⟩ | hne
    · rw [if_pos rfl]
      exact hlisted
    · -- Another group has another key, so its entry is not the one that is changed.
      rw [if_neg hne, hothers _ fun hkey => hne (h.distinct hgroup' hpresent hkey).symm]
      exact h.listed hgroup'
  · intro key hkey
    by_cases heq : key = group.key
    · exact heq ▸ OrderedMap.mem_keys_iff.mpr ⟨_, h.listed hpresent⟩
    · obtain ⟨address, haddress⟩ := OrderedMap.mem_keys_iff.mp hkey
      exact OrderedMap.mem_keys_iff.mpr ⟨address, (hothers key heq).symm.trans haddress⟩

/-! ### Every change -/

/-- A booking may be dropped. -/
theorem serves_free {group : Group} (h : d.Serves group) :
    d.Serves { group with booking := none } :=
  ⟨h.routed, h.addressed, h.keyed, h.viewed, fun _ hbooking => by cases hbooking⟩

theorem serves_forget {group : Group} (h : d.Serves group) (e : Edge) :
    d.Serves (Registry.forget e group) := by
  unfold Registry.forget
  split
  · exact serves_free h
  · exact h

theorem serves_bookStream {group : Group} (h : d.Serves group) {e : Edge}
    (hfirst : group.route.currentEdge? = some e)
    (hspare : ∀ booking, group.booking = some booking → booking.streams < group.size) :
    d.Serves (group.bookStream e) := by
  refine ⟨h.routed, h.addressed, h.keyed, h.viewed, fun booking hbooking => ?_⟩
  obtain rfl := Option.some.inj hbooking
  refine ⟨hfirst, ?_⟩
  dsimp only [Group.bookStream, Group.size]
  split
  · next booking hbefore =>
      have hlt : booking.streams < group.viewers.length := hspare booking hbefore
      split <;> omega
  · exact ⟨Nat.le_refl 1, h.viewed⟩

theorem Coherent.clearEdge (h : Coherent d p) (e : Edge) :
    Coherent d (p.clearEdge e) ∧ Kept p (p.clearEdge e) := by
  have hforget (group : Group) : (Registry.forget e group).id = group.id ∧
      (Registry.forget e group).key = group.key ∧
        (Registry.forget e group).serverAddress = group.serverAddress := by
    unfold Registry.forget
    split <;> exact ⟨rfl, rfl, rfl⟩
  refine h.update (fun _ => Registry.forget e) (Topology.sameNetwork_reset _ e) rfl rfl
    (Registry.group?_clearBookings p.registry e) ?_ ?_ ?_ (fun _ hkey => hkey)
  · intro id group _
    exact ⟨(hforget group).1, (hforget group).2.1⟩
  · intro id group hgroup
    exact serves_forget (h.served hgroup) e
  · intro id group hgroup
    rw [(hforget group).2.2]
    exact h.listed hgroup

theorem Coherent.releaseBooking (h : Coherent d p) (id : GroupId) :
    Coherent d (p.releaseBooking id) ∧ Kept p (p.releaseBooking id) := by
  unfold Placement.releaseBooking
  split
  · next booking hbooking =>
      obtain ⟨group, hgroup, -⟩ := Option.bind_eq_some_iff.mp hbooking
      exact h.modify hgroup (Topology.sameNetwork_release _ _ _) ⟨rfl, rfl⟩
        (serves_free (h.served hgroup)) (h.listed hgroup) fun _ _ => rfl
  · exact ⟨h, Kept.refl p⟩

/-- A group may be put behind the last if it is served, under a key that no group has. -/
theorem Coherent.append (h : Coherent d p) {founded : Group}
    (hnumbered : founded.id = ⟨p.registry.size⟩)
    (hfresh : ∀ {id group}, p.registry.group? id = some group → group.key ≠ founded.key)
    (hserves : d.Serves founded) :
    let q := { p with
      registry := { p.registry with groups := p.registry.groups ++ [founded] }
      directory := p.directory.insert founded.key founded.serverAddress }
    Coherent d q ∧ Kept p q := by
  intro q
  have hlast : q.registry.group? ⟨p.registry.size⟩ = some founded := by
    simp only [q, Registry.group?_append, if_pos]
  have hcases : ∀ {id group}, q.registry.group? id = some group →
      (id = ⟨p.registry.size⟩ ∧ group = founded) ∨ p.registry.group? id = some group :=
    Registry.group?_append_cases
  have hkept : Kept p q := by
    intro id group hgroup
    refine ⟨group, ?_, rfl⟩
    simp only [q, Registry.group?_append]
    rw [if_neg, hgroup]
    rintro hid
    obtain rfl : id = ⟨p.registry.size⟩ := congrArg Id.mk hid
    rw [Registry.group?_size] at hgroup
    cases hgroup
  refine ⟨?_, hkept⟩
  constructor
  case network => exact h.network
  case book_eq => exact h.book_eq
  case grouping_eq => exact h.grouping_eq
  case numbered =>
    intro id group hgroup
    rcases hcases hgroup with ⟨rfl, rfl⟩ | hbefore
    · exact hnumbered
    · exact h.numbered hbefore
  case served =>
    intro id group hgroup
    rcases hcases hgroup with ⟨rfl, rfl⟩ | hbefore
    · exact hserves
    · exact h.served hbefore
  case listed =>
    intro id group hgroup
    rcases hcases hgroup with ⟨rfl, rfl⟩ | hbefore
    · exact OrderedMap.get?_insert_self ..
    · simp only [q]
      rw [OrderedMap.get?_insert_of_ne _ _ (hfresh hbefore)]
      exact h.listed hbefore
  case distinct =>
    intro id id' group group' hgroup hgroup' hkey
    rcases hcases hgroup with ⟨rfl, rfl⟩ | hbefore <;>
      rcases hcases hgroup' with ⟨rfl, rfl⟩ | hbefore'
    · rfl
    · exact absurd hkey.symm (hfresh hbefore')
    · exact absurd hkey (hfresh hbefore)
    · exact h.distinct hbefore hbefore' hkey
  case covered =>
    intro key hkey
    rcases OrderedMap.mem_keys_insert.mp hkey with rfl | hkey
    · exact ⟨_, founded, hlast, rfl⟩
    · obtain ⟨id, group, hgroup, rfl⟩ := h.covered key hkey
      obtain ⟨group', hgroup', hkey'⟩ := hkept hgroup
      exact ⟨id, group', hgroup', hkey'⟩

theorem Coherent.bookGroup (h : Coherent d p) {id : GroupId} {group : Group}
    (hpresent : p.registry.group? id = some group) :
    Coherent d (p.bookGroup id group.route.currentEdge?) ∧
      Kept p (p.bookGroup id group.route.currentEdge?) := by
  have hserved := h.served hpresent
  simp only [Placement.bookGroup, hpresent]
  cases hfirst : group.route.currentEdge? with
  | none =>
      exact h.modify hpresent (.refl _) ⟨rfl, rfl⟩ (serves_free hserved) (h.listed hpresent)
        fun _ _ => rfl
  | some e =>
      refine h.modify hpresent (Topology.sameNetwork_allocateMany _ _ _) ⟨rfl, rfl⟩ ?_
        (h.listed hpresent) fun _ _ => rfl
      refine ⟨hserved.routed, hserved.addressed, hserved.keyed, hserved.viewed,
        fun booking hbooking => ?_⟩
      obtain rfl := Option.some.inj hbooking
      exact ⟨hfirst, hserved.viewed, Nat.le_refl _⟩

theorem Coherent.change (h : Coherent d p) (hchange : Change d p q) : Coherent d q ∧ Kept p q := by
  cases hchange with
  | @join id group viewer present =>
      have hserved := h.served present
      have hsize : (group.addViewer viewer).size = group.size + 1 := by
        simp [Group.size, Group.addViewer]
      refine h.modify present (.refl _) ⟨rfl, rfl⟩ ?_ (h.listed present) fun _ _ => rfl
      refine ⟨hserved.routed, hserved.addressed, hserved.keyed, by omega,
        fun booking hbooking => ?_⟩
      obtain ⟨hfirst, hpos, hle⟩ := hserved.booked booking hbooking
      exact ⟨hfirst, hpos, by omega⟩
  | found numbered fresh serves _ => exact h.append numbered fresh serves
  | stream present first spare =>
      exact h.modify present (Topology.sameNetwork_allocate _ _) ⟨rfl, rfl⟩
        (serves_bookStream (h.served present) first spare) (h.listed present) fun _ _ => rfl
  | clear e => exact h.clearEdge e
  | release id => exact h.releaseBooking id
  | redirect present free routed addressed =>
      refine h.modify present (.refl _) ⟨rfl, rfl⟩ ?_ (OrderedMap.get?_insert_self ..)
        fun _ hne => OrderedMap.get?_insert_of_ne _ _ hne
      have hserved := h.served present
      refine ⟨routed, addressed, hserved.keyed, hserved.viewed, fun booking hbooking => ?_⟩
      exact absurd (free.symm.trans hbooking) (by simp)
  | book present _ => exact h.bookGroup present
  | aside servers strategy tally requests pending =>
      exact ⟨⟨h.network, h.book_eq, h.grouping_eq, h.numbered, h.served, h.listed, h.distinct,
        h.covered⟩, Kept.refl p⟩

/-- Any number of changes, one after the other. -/
abbrev Changes (d : Deployment α) : Placement α → Placement α → Prop :=
  Relation.ReflTransGen (Change d)

/-- What is coherent stays coherent, and no group is lost. -/
theorem Coherent.changes (h : Coherent d p) (hchanges : Changes d p q) :
    Coherent d q ∧ Kept p q := by
  induction hchanges with
  | refl => exact ⟨h, Kept.refl p⟩
  | tail _ hchange ih =>
      obtain ⟨hcoherent, hkept⟩ := ih
      obtain ⟨hcoherent', hkept'⟩ := hcoherent.change hchange
      exact ⟨hcoherent', hkept.trans hkept'⟩

end Placement

end StreamPlacement
