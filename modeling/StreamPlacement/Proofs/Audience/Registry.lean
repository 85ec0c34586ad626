import Mathlib.Algebra.Order.BigOperators.Group.List
import Mathlib.Algebra.Order.Ring.Nat
import StreamPlacement.Audience.Registry

/-!
What each operation of the registry does to one group, looked at through its number. A number stays
with its group: operations change groups in place or put a new one behind the last.
-/

namespace StreamPlacement

/-! ### Streams -/

/-- The streams that a group has booked on a directed edge. -/
def Group.streamsOn (group : Group) (e : Edge) : Nat :=
  match group.booking with
  | some booking => if booking.edge = e then booking.streams else 0
  | none => 0

/-- The streams that all groups together have booked on a directed edge. -/
def Registry.streamsOn (registry : Registry) (e : Edge) : Nat :=
  (registry.groups.map (·.streamsOn e)).sum

theorem Group.streamsOn_of_none {group : Group} (h : group.booking = none) (e : Edge) :
    group.streamsOn e = 0 := by
  rw [streamsOn, h]

theorem Group.streamsOn_of_some {group : Group} {booking : Booking}
    (h : group.booking = some booking) (e : Edge) :
    group.streamsOn e = if booking.edge = e then booking.streams else 0 := by
  rw [streamsOn, h]

theorem sum_map_modify {β : Type} (measure : β → Nat) (change : β → β) {xs : List β} {i : Nat}
    {x : β} (h : xs[i]? = some x) :
    ((xs.modify i change).map measure).sum + measure x =
      (xs.map measure).sum + measure (change x) := by
  induction xs generalizing i with
  | nil => simp at h
  | cons y rest ih =>
      cases i with
      | zero =>
          obtain rfl : y = x := by simpa using h
          simp only [List.modify_zero_cons, List.map_cons, List.sum_cons]
          omega
      | succ i =>
          have hrest := ih (i := i) (by simpa using h)
          simp only [List.modify_succ_cons, List.map_cons, List.sum_cons]
          omega

/-- What a change leaves alone in the entry that it is made to is the same in all entries. -/
theorem map_modify_of_eq {β γ : Type} {measure : β → γ} {change : β → β} {xs : List β} {i : Nat}
    (h : ∀ x, xs[i]? = some x → measure (change x) = measure x) :
    (xs.modify i change).map measure = xs.map measure := by
  refine List.ext_getElem? fun j => ?_
  rw [List.getElem?_map, List.getElem?_map, List.getElem?_modify]
  by_cases hij : i = j
  · subst hij
    cases hx : xs[i]? with
    | none => rfl
    | some x => simp [h x hx]
  · simp [hij]

namespace Registry

variable {registry : Registry} {id : GroupId} {group : Group}

/-! ### One group at a time -/

theorem mem_groups_iff : group ∈ registry.groups ↔ ∃ id, registry.group? id = some group := by
  rw [List.mem_iff_getElem?]
  constructor
  · rintro ⟨i, h⟩
    exact ⟨⟨i⟩, h⟩
  · rintro ⟨⟨i⟩, h⟩
    exact ⟨i, h⟩

theorem group?_modify (registry : Registry) (id id' : GroupId) (change : Group → Group) :
    (registry.modify id change).group? id' =
      (registry.group? id').map fun group => if id = id' then change group else group := by
  rw [group?, modify, List.getElem?_modify]
  by_cases h : id = id'
  · subst h
    simp [group?]
  · have hne : id.index ≠ id'.index := fun heq => h (congrArg Id.mk heq)
    simp [hne, h, group?]

theorem group?_modify_self (h : registry.group? id = some group) (change : Group → Group) :
    (registry.modify id change).group? id = some (change group) := by
  rw [group?_modify, h, Option.map_some, if_pos rfl]

theorem group?_modify_of_ne {id' : GroupId} (h : id ≠ id') (change : Group → Group) :
    (registry.modify id change).group? id' = registry.group? id' := by
  simp [group?_modify, h]

theorem group?_modify_cases {id' : GroupId} {change : Group → Group} {later : Group}
    (h : (registry.modify id change).group? id' = some later) :
    ∃ before, registry.group? id' = some before ∧
      (id = id' ∧ later = change before ∨ id ≠ id' ∧ later = before) := by
  rw [group?_modify] at h
  obtain ⟨before, hbefore, rfl⟩ := Option.map_eq_some_iff.mp h
  refine ⟨before, hbefore, ?_⟩
  split
  · next heq => exact .inl ⟨heq, rfl⟩
  · next hne => exact .inr ⟨hne, rfl⟩

theorem modify_modify (registry : Registry) (id : GroupId) (change later : Group → Group) :
    (registry.modify id change).modify id later =
      registry.modify id fun group => later (change group) := by
  simp only [modify, List.modify_modify_eq]
  rfl

/-- Only what a change makes of the group at hand matters. -/
theorem modify_congr {change change' : Group → Group}
    (h : ∀ group, registry.group? id = some group → change group = change' group) :
    registry.modify id change = registry.modify id change' := by
  have hgroups : registry.groups.modify id.index change =
      registry.groups.modify id.index change' := by
    refine List.ext_getElem? fun i => ?_
    rw [List.getElem?_modify, List.getElem?_modify]
    cases hi : registry.groups[i]? with
    | none => rfl
    | some group =>
        by_cases heq : id.index = i
        · subst heq
          simp [h group hi]
        · simp [heq]
  rw [modify, modify, hgroups]

theorem modify_eq_self {change : Group → Group}
    (h : ∀ group, registry.group? id = some group → change group = group) :
    registry.modify id change = registry := by
  have hsame : registry.groups.modify id.index (fun group => group) = registry.groups :=
    List.modify_id ..
  rw [modify_congr h, modify, hsame]

/-- What clearing an edge does to a group. -/
def forget (e : Edge) (group : Group) : Group :=
  if (group.booking.map Booking.edge) = some e then { group with booking := none } else group

theorem group?_clearBookings (registry : Registry) (e : Edge) (id : GroupId) :
    (registry.clearBookings e).group? id = (registry.group? id).map (forget e) := by
  simp only [group?, clearBookings, List.getElem?_map]
  rfl

@[simp] theorem id_forget (e : Edge) (group : Group) : (forget e group).id = group.id := by
  unfold forget
  split <;> rfl

@[simp] theorem server_forget (e : Edge) (group : Group) :
    (forget e group).server = group.server := by
  unfold forget
  split <;> rfl

@[simp] theorem route_forget (e : Edge) (group : Group) :
    (forget e group).route = group.route := by
  unfold forget
  split <;> rfl

@[simp] theorem accessPoint_forget (e : Edge) (group : Group) :
    (forget e group).accessPoint = group.accessPoint := by
  unfold forget
  split <;> rfl

@[simp] theorem size_forget (e : Edge) (group : Group) : (forget e group).size = group.size := by
  unfold forget
  split <;> rfl

/-- Bookings have no say in which groups use a link. -/
theorem traversing_clearBookings (registry : Registry) (e e' : Edge) :
    (registry.clearBookings e).traversing e' = registry.traversing e' := by
  show ((registry.groups.map (forget e)).filter (·.route.traversesLink e')).map Group.id = _
  rw [List.filter_map, List.map_map]
  simp only [Function.comp_def, id_forget, route_forget]
  rfl

theorem group?_append (registry : Registry) (founded : Group) (id : GroupId) :
    { registry with groups := registry.groups ++ [founded] }.group? id =
      if id.index = registry.size then some founded else registry.group? id := by
  have hsize : registry.size = registry.groups.length := rfl
  unfold group?
  by_cases h : id.index < registry.groups.length
  · rw [List.getElem?_append_left h, if_neg (by omega)]
  · rw [List.getElem?_append_right (by omega)]
    by_cases heq : id.index = registry.groups.length
    · rw [heq, Nat.sub_self, if_pos hsize.symm]
      rfl
    · rw [if_neg (by omega), List.getElem?_eq_none (by simp; omega),
        List.getElem?_eq_none (by omega)]

theorem group?_append_cases {founded : Group}
    (h : { registry with groups := registry.groups ++ [founded] }.group? id = some group) :
    (id = ⟨registry.size⟩ ∧ group = founded) ∨ registry.group? id = some group := by
  rw [group?_append] at h
  split at h
  · next hid => exact .inl ⟨congrArg Id.mk hid, (Option.some.inj h).symm⟩
  · exact .inr h

theorem group?_size (registry : Registry) : registry.group? ⟨registry.size⟩ = none := by
  simp [group?, size]

/-- Registries with one rule and the same groups under the same numbers are equal. -/
theorem eq_of_group?_eq {registry' : Registry} (hgrouping : registry.grouping = registry'.grouping)
    (h : ∀ id, registry.group? id = registry'.group? id) : registry = registry' := by
  have hgroups : registry.groups = registry'.groups := List.ext_getElem? fun i => h ⟨i⟩
  cases registry
  cases registry'
  simp_all

/-! ### Enrolment -/

theorem find?_eq_none {key : GroupKey} :
    registry.find? key = none ↔ ∀ group ∈ registry.groups, group.key ≠ key := by
  simp [find?]

theorem find?_eq_none_iff {key : GroupKey} :
    registry.find? key = none ↔
      ∀ {id group}, registry.group? id = some group → group.key ≠ key := by
  rw [find?_eq_none]
  constructor
  · intro h id group hgroup
    exact h group (mem_groups_iff.mpr ⟨id, hgroup⟩)
  · intro h group hmem
    obtain ⟨id, hgroup⟩ := mem_groups_iff.mp hmem
    exact h hgroup

/-- What is found has the key, as long as every group knows its position. -/
theorem group?_of_find? {key : GroupKey}
    (hnumbered : ∀ {id group}, registry.group? id = some group → group.id = id)
    (hfind : registry.find? key = some id) :
    ∃ group, registry.group? id = some group ∧ group.key = key := by
  obtain ⟨group, hfound, rfl⟩ := Option.map_eq_some_iff.mp hfind
  obtain ⟨id, hgroup⟩ := mem_groups_iff.mp (List.mem_of_find?_eq_some hfound)
  refine ⟨group, ?_, by simpa using List.find?_some hfound⟩
  rw [hnumbered hgroup, hgroup]

/-- The group that the first viewer of a key founds. -/
def founded (registry : Registry) (book : AddressBook) (attachment : Attachment)
    (accessPoint requested : NodeId) (content : ContentId) (user : UserId) (address : Address)
    (route : Route) : Group :=
  { id := ⟨registry.size⟩
    key := registry.grouping.keyFor attachment.broadcast content
    accessPoint, requested, content, route
    viewers := [{ user, content, address := attachment.address }]
    server := (book.nodeAt? address).getD requested
    serverAddress := address }

variable {α : Type} {t : Topology α} {book : AddressBook}
  {directory directory' : Directory} {registry' : Registry} {accessPoint requested : NodeId}
  {content : ContentId} {user : UserId}

/-- All that an enrolment can do. -/
theorem enroll_cases
    (h : registry.enroll t book directory accessPoint requested content user =
      .ok (id, registry', directory')) :
    ∃ attachment, book.client? user = some attachment ∧
      ((registry.find? (registry.grouping.keyFor attachment.broadcast content) = some id ∧
          registry' = registry.modify id
            (·.addViewer { user, content, address := attachment.address }) ∧
          directory' = directory) ∨
        (registry.find? (registry.grouping.keyFor attachment.broadcast content) = none ∧
          ∃ route address, t.route requested accessPoint = .ok route ∧
            let group := registry.founded book attachment accessPoint requested content user
              address route
            id = group.id ∧ registry' = { registry with groups := registry.groups ++ [group] } ∧
            ((directory.get? group.key = some address ∧ directory' = directory) ∨
              (directory.get? group.key = none ∧ book.nodeAddress requested = .ok address ∧
                directory' = directory.insert group.key address)))) := by
  unfold enroll at h
  split at h
  · cases h
  · next attachment hclient =>
      refine ⟨attachment, hclient, ?_⟩
      dsimp only at h
      split at h
      · next found hfind =>
          cases h
          exact .inl ⟨hfind, rfl, rfl⟩
      · next hfind =>
          simp only [bind, Except.bind, pure, Except.pure] at h
          split at h
          · cases h
          · next route hroute =>
              cases hentry : directory.get?
                  (registry.grouping.keyFor attachment.broadcast content) with
              | some address =>
                  rw [hentry] at h
                  cases h
                  exact .inr ⟨hfind, route, address, hroute, rfl, rfl, .inl ⟨hentry, rfl⟩⟩
              | none =>
                  rw [hentry] at h
                  cases hnode : book.nodeAddress requested with
                  | error fault =>
                      rw [hnode] at h
                      cases h
                  | ok address =>
                      rw [hnode] at h
                      cases h
                      exact .inr ⟨hfind, route, address, hroute, rfl, rfl,
                        .inr ⟨hentry, rfl, rfl⟩⟩

/-! ### The index by key -/

/-- The numbers of the groups with their keys. -/
def entries (registry : Registry) : List (GroupKey × GroupId) :=
  registry.groups.map fun group => (group.key, group.id)

theorem find?_eq_entries (registry : Registry) (key : GroupKey) :
    registry.find? key = (registry.entries.find? (·.1 = key)).map Prod.snd := by
  rw [entries, List.find?_map, Option.map_map]
  rfl

theorem entries_addViewer (registry : Registry) (id : GroupId) (viewer : Viewer) :
    (registry.modify id (·.addViewer viewer)).entries = registry.entries :=
  map_modify_of_eq fun _ _ => rfl

/-- After an enrolment the viewer's key leads to its group, and any other key where it did before:
as if the numbers were looked up in an index that is written whenever a group is founded. -/
theorem find?_enroll {attachment : Attachment} (hclient : book.client? user = some attachment)
    (h : registry.enroll t book directory accessPoint requested content user =
      .ok (id, registry', directory')) (key : GroupKey) :
    registry'.find? key =
      if key = registry.grouping.keyFor attachment.broadcast content then some id
      else registry.find? key := by
  obtain ⟨_, hfound, ⟨hfind, rfl, -⟩ | ⟨hfind, route, address, -, rfl, rfl, -⟩⟩ := enroll_cases h
  all_goals obtain rfl := Option.some.inj (hclient.symm.trans hfound)
  · rw [find?_eq_entries, entries_addViewer, ← find?_eq_entries]
    split
    · next hkey => rw [hkey, hfind]
    · rfl
  · rw [find?, List.find?_append, Option.map_or]
    split
    · next hkey =>
        rw [← find?, hkey, hfind]
        simp [founded]
    · next hkey =>
        rw [← find?]
        simp [founded, Ne.symm hkey]

/-! ### Streams on an edge -/

theorem streamsOn_modify (h : registry.group? id = some group) (change : Group → Group)
    (e : Edge) :
    (registry.modify id change).streamsOn e + group.streamsOn e =
      registry.streamsOn e + (change group).streamsOn e :=
  sum_map_modify (·.streamsOn e) change h

theorem streamsOn_clearBookings (registry : Registry) (e e' : Edge) :
    (registry.clearBookings e).streamsOn e' = if e = e' then 0 else registry.streamsOn e' := by
  have hforget (group : Group) :
      (forget e group).streamsOn e' = if e = e' then 0 else group.streamsOn e' := by
    unfold forget
    split
    · next hedge =>
        obtain ⟨booking, hbooking, rfl⟩ := Option.map_eq_some_iff.mp hedge
        rw [Group.streamsOn_of_none rfl, Group.streamsOn_of_some hbooking]
        by_cases he : booking.edge = e' <;> simp [he]
    · next hedge =>
        by_cases he : e = e'
        · subst he
          rw [if_pos rfl]
          cases hbooking : group.booking with
          | none => exact Group.streamsOn_of_none hbooking e
          | some booking =>
              rw [Group.streamsOn_of_some hbooking, if_neg]
              simpa [hbooking] using hedge
        · rw [if_neg he]
  simp only [streamsOn, clearBookings, List.map_map]
  show (registry.groups.map fun group => (forget e group).streamsOn e').sum = _
  simp only [hforget]
  split
  · simp
  · rfl

theorem streamsOn_append (registry : Registry) (founded : Group) (e : Edge) :
    { registry with groups := registry.groups ++ [founded] }.streamsOn e =
      registry.streamsOn e + founded.streamsOn e := by
  simp [streamsOn]

/-- No group has more streams on an edge than all groups together. -/
theorem streamsOn_le (h : registry.group? id = some group) (e : Edge) :
    group.streamsOn e ≤ registry.streamsOn e :=
  List.le_sum_of_mem (List.mem_map.mpr ⟨group, mem_groups_iff.mpr ⟨id, h⟩, rfl⟩)

end Registry

end StreamPlacement
