import Mathlib.Data.List.Induction
import StreamPlacement.Proofs.Placement.Frame

/-!
The groups are the viewers that were let in, sorted by key.

A viewer that is let in joins the group of its key or founds it behind the last, and nothing else
ever touches who is in a group. So after any run the groups are determined by the requests that were
let in, in order: there is one for every key among them, in order of first appearance, and it has
the viewers of that key. In particular a number stands for the same group for good.
-/

namespace StreamPlacement

/-! ### Lists without repetition -/

theorem eraseDups_concat {β : Type} [BEq β] [LawfulBEq β] (xs : List β) (x : β) :
    (xs ++ [x]).eraseDups = if x ∈ xs then xs.eraseDups else xs.eraseDups ++ [x] := by
  rw [List.eraseDups_append]
  by_cases h : x ∈ xs <;> simp [List.removeAll, h, List.eraseDups_cons]

/-! ### Requests that were let in -/

/-- What a viewer asked for when it came. -/
structure Arrival where
  accessPoint : NodeId
  requested : NodeId
  content : ContentId
  user : UserId
  deriving DecidableEq

namespace Deployment

variable {α : Type} [Quantity α]

/-- The key of a viewer: the network that it is attached to, and the content that it asks for where
that makes a difference. -/
def keyOf? (d : Deployment α) (arrival : Arrival) : Option GroupKey :=
  (d.book.client? arrival.user).map fun attachment =>
    d.grouping.keyFor attachment.broadcast arrival.content

/-- A viewer as it is kept in its group. -/
def viewerOf? (d : Deployment α) (arrival : Arrival) : Option Viewer :=
  (d.book.client? arrival.user).map fun attachment =>
    { user := arrival.user, content := arrival.content, address := attachment.address }

end Deployment

namespace Placement

variable {α : Type} [Quantity α]

/-- The request that an operation lets in, if it does. That the first hop is full makes no
difference. -/
def letIn (p : Placement α) : Operation → List Arrival
  | .arrive accessPoint requested content user =>
    match p.admitViewer accessPoint requested content user with
    | .ok _ => [⟨accessPoint, requested, content, user⟩]
    | .error _ => []
  | _ => []

/-- All requests that a run lets in, in order. -/
def arrivals (p : Placement α) : List Operation → List Arrival
  | [] => []
  | op :: rest => p.letIn op ++ (p.perform op).arrivals rest

theorem arrivals_append (p : Placement α) (ops more : List Operation) :
    p.arrivals (ops ++ more) = p.arrivals ops ++ (p.run ops).arrivals more := by
  induction ops generalizing p with
  | nil => rfl
  | cons op rest ih =>
      rw [List.cons_append, arrivals, arrivals, ih, List.append_assoc]
      rfl

end Placement

/-! ### The roll -/

/-- A group that a viewer has joined. -/
def Group.Profile.join (profile : Group.Profile) (viewer : Viewer) : Group.Profile :=
  { profile with viewers := profile.viewers ++ [viewer] }

/-- Who is in which group, and how many viewers were admitted and refused. -/
structure Roll where
  profiles : List Group.Profile
  admitted : Nat
  refused : Nat

/-- The group in position `i` has the viewers of its key, and is what the first of them made it. -/
structure Deployment.Lists {α : Type} [Quantity α] (d : Deployment α) (arrivals : List Arrival)
    (i : Nat) (profile : Group.Profile) : Prop where
  id_eq : profile.id = ⟨i⟩
  viewers_eq : profile.viewers.map some =
    (arrivals.filter fun a => d.keyOf? a = some profile.key).map d.viewerOf?
  founder : ∃ first, arrivals.find? (fun a => d.keyOf? a = some profile.key) = some first ∧
    profile.accessPoint = first.accessPoint ∧ profile.requested = first.requested ∧
    profile.content = first.content

/-- The roll has every viewer that was let in, and no others. -/
structure Roll.Complete {α : Type} [Quantity α] (roll : Roll) (d : Deployment α)
    (arrivals : List Arrival) : Prop where
  keys_eq : roll.profiles.map (fun profile => some profile.key) =
    (arrivals.map d.keyOf?).eraseDups
  lists : ∀ {i profile}, roll.profiles[i]? = some profile → d.Lists arrivals i profile
  counted : roll.admitted + roll.refused = arrivals.length
  total : (roll.profiles.map (·.viewers.length)).sum = arrivals.length

variable {α : Type} [Quantity α] {d : Deployment α} {arrivals : List Arrival} {a : Arrival}
  {profile : Group.Profile} {viewer : Viewer} {i : Nat}

namespace Deployment.Lists

/-- Whoever has another key makes no difference. -/
theorem pass (h : d.Lists arrivals i profile) (hkey : d.keyOf? a ≠ some profile.key) :
    d.Lists (arrivals ++ [a]) i profile where
  id_eq := h.id_eq
  viewers_eq := by rw [h.viewers_eq, List.filter_append]; simp [hkey]
  founder := by
    obtain ⟨first, hfirst, hmade⟩ := h.founder
    exact ⟨first, by rw [List.find?_append, hfirst]; rfl, hmade⟩

theorem join (h : d.Lists arrivals i profile) (hkey : d.keyOf? a = some profile.key)
    (hviewer : d.viewerOf? a = some viewer) :
    d.Lists (arrivals ++ [a]) i (profile.join viewer) where
  id_eq := h.id_eq
  viewers_eq := by
    show (profile.viewers ++ [viewer]).map some =
      ((arrivals ++ [a]).filter fun a => d.keyOf? a = some profile.key).map d.viewerOf?
    rw [List.map_append, h.viewers_eq, List.filter_append, List.map_append]
    simp [hkey, hviewer]
  founder := by
    obtain ⟨first, hfirst, hmade⟩ := h.founder
    refine ⟨first, ?_, hmade⟩
    show (arrivals ++ [a]).find? (fun a => d.keyOf? a = some profile.key) = some first
    rw [List.find?_append, hfirst]
    rfl

/-- The first of its key founds the group. -/
theorem found (hid : profile.id = ⟨i⟩) (hfresh : some profile.key ∉ arrivals.map d.keyOf?)
    (hkey : d.keyOf? a = some profile.key) (hviewer : d.viewerOf? a = some viewer)
    (hviewers : profile.viewers = [viewer])
    (hmade : profile.accessPoint = a.accessPoint ∧ profile.requested = a.requested ∧
      profile.content = a.content) : d.Lists (arrivals ++ [a]) i profile where
  id_eq := hid
  viewers_eq := by
    have hnone : arrivals.filter (fun b => d.keyOf? b = some profile.key) = [] := by
      refine List.filter_eq_nil_iff.mpr fun b hb hsame => hfresh ?_
      exact List.mem_map.mpr ⟨b, hb, by simpa using hsame⟩
    simp [List.filter_append, hnone, hkey, hviewer, hviewers]
  founder := by
    have hnone : arrivals.find? (fun b => d.keyOf? b = some profile.key) = none := by
      refine List.find?_eq_none.mpr fun b hb hsame => hfresh ?_
      exact List.mem_map.mpr ⟨b, hb, by simpa using hsame⟩
    exact ⟨a, by rw [List.find?_append, hnone]; simp [hkey], hmade⟩

end Deployment.Lists

namespace Roll.Complete

variable {roll : Roll} {admitted refused : Nat}

theorem join (h : roll.Complete d arrivals) (hat : roll.profiles[i]? = some profile)
    (hkey : d.keyOf? a = some profile.key) (hviewer : d.viewerOf? a = some viewer)
    (hdistinct : ∀ {j other}, roll.profiles[j]? = some other → other.key = profile.key → j = i)
    (hcount : admitted + refused = roll.admitted + roll.refused + 1) :
    Complete ⟨roll.profiles.modify i (·.join viewer), admitted, refused⟩ d (arrivals ++ [a]) where
  keys_eq := by
    have hmem : some profile.key ∈ arrivals.map d.keyOf? := by
      rw [← List.mem_eraseDups, ← h.keys_eq]
      exact List.mem_map.mpr ⟨profile, List.mem_of_getElem? hat, rfl⟩
    rw [List.map_append, List.map_singleton, hkey, eraseDups_concat, if_pos hmem, ← h.keys_eq]
    exact map_modify_of_eq fun _ _ => rfl
  lists := by
    intro j other hother
    rw [List.getElem?_modify] at hother
    obtain ⟨before, hbefore, rfl⟩ := Option.map_eq_some_iff.mp hother
    by_cases hij : i = j
    · subst hij
      obtain rfl : profile = before := Option.some.inj (hat.symm.trans hbefore)
      rw [if_pos rfl]
      exact (h.lists hat).join hkey hviewer
    · rw [if_neg hij]
      refine (h.lists hbefore).pass fun hsame => hij ?_
      rw [hkey] at hsame
      exact (hdistinct hbefore (Option.some.inj hsame).symm).symm
  counted := by
    rw [hcount, h.counted, List.length_append, List.length_singleton]
  total := by
    have hsum := sum_map_modify (·.viewers.length) (·.join viewer) hat
    have htotal := h.total
    simp only [Group.Profile.join, List.length_append, List.length_singleton] at hsum ⊢
    omega

theorem found (h : roll.Complete d arrivals) (hid : profile.id = ⟨roll.profiles.length⟩)
    (hfresh : ∀ other ∈ roll.profiles, other.key ≠ profile.key)
    (hkey : d.keyOf? a = some profile.key) (hviewer : d.viewerOf? a = some viewer)
    (hviewers : profile.viewers = [viewer])
    (hmade : profile.accessPoint = a.accessPoint ∧ profile.requested = a.requested ∧
      profile.content = a.content)
    (hcount : admitted + refused = roll.admitted + roll.refused + 1) :
    Complete ⟨roll.profiles ++ [profile], admitted, refused⟩ d (arrivals ++ [a]) := by
  have hnew : some profile.key ∉ arrivals.map d.keyOf? := by
    rw [← List.mem_eraseDups, ← h.keys_eq, List.mem_map]
    rintro ⟨other, hother, hsame⟩
    exact hfresh other hother (Option.some.inj hsame)
  constructor
  case keys_eq =>
    rw [List.map_append, h.keys_eq, List.map_append, List.map_singleton, List.map_singleton, hkey,
      eraseDups_concat, if_neg hnew]
  case lists =>
    intro j other hother
    rcases List.getElem?_append.symm.trans hother with hother
    split at hother
    · have hold := h.lists hother
      refine hold.pass fun hsame => ?_
      rw [hkey] at hsame
      exact hfresh other (List.mem_of_getElem? hother) (Option.some.inj hsame).symm
    · next hlast =>
        obtain ⟨hj, rfl⟩ : j = roll.profiles.length ∧ profile = other := by
          obtain ⟨hlt, heq⟩ := List.getElem?_eq_some_iff.mp hother
          simp only [List.length_singleton] at hlt
          exact ⟨by omega, by simpa using heq⟩
        subst hj
        exact .found hid hnew hkey hviewer hviewers hmade
  case counted => rw [hcount, h.counted, List.length_append, List.length_singleton]
  case total =>
    have htotal := h.total
    simp [hviewers, htotal]

end Roll.Complete

/-! ### Steps and runs -/

def Frame.roll (frame : Frame) : Roll where
  profiles := frame.profiles
  admitted := frame.tally.admitted
  refused := frame.tally.refused

theorem Registry.profiles_addViewer (registry : Registry) (id : GroupId) (viewer : Viewer) :
    (registry.modify id (·.addViewer viewer)).profiles =
      registry.profiles.modify id.index (·.join viewer) := by
  refine List.ext_getElem? fun i => ?_
  rw [List.getElem?_modify, getElem?_profiles, getElem?_profiles, group?_modify, Option.map_map]
  change _ = ((registry.group? ⟨i⟩).map Group.profile).map _
  rw [Option.map_map]
  refine Option.map_congr fun group _ => ?_
  by_cases h : id = ⟨i⟩
  · subst h
    simp [Group.profile, Group.Profile.join, Group.addViewer]
  · have hne : id.index ≠ i := fun heq => h (congrArg Id.mk heq)
    simp [h, hne]

namespace Placement

variable {p q : Placement α} {admission : Admission}

/-- An admission enrols the viewer and is counted. What it books is not on the roll. -/
theorem roll_admitViewer
    (harrive : p.admitViewer a.accessPoint a.requested a.content a.user = .ok (admission, q)) :
    ∃ registry directory,
      p.registry.enroll p.topology p.book p.directory a.accessPoint a.requested a.content a.user =
        .ok (admission.group, registry, directory) ∧
      q.frame.roll.profiles = registry.profiles ∧
      q.frame.roll.admitted + q.frame.roll.refused =
        p.frame.roll.admitted + p.frame.roll.refused + 1 := by
  obtain ⟨id, registry, directory, henroll, hcases⟩ := admitViewer_cases harrive
  rcases hcases with ⟨-, rfl, rfl⟩ | ⟨e, -, ⟨rfl, rfl⟩ | ⟨rfl, rfl⟩⟩
  · exact ⟨registry, directory, henroll, rfl, Nat.succ_add ..⟩
  · exact ⟨registry, directory, henroll, Registry.profiles_modify fun _ => rfl, Nat.succ_add ..⟩
  · exact ⟨registry, directory, henroll, rfl, rfl⟩

/-- Whoever is let in is put on the roll. -/
theorem Coherent.complete_admitViewer (h : Coherent d p) (hroll : p.frame.roll.Complete d arrivals)
    (harrive : p.admitViewer a.accessPoint a.requested a.content a.user = .ok (admission, q)) :
    q.frame.roll.Complete d (arrivals ++ [a]) := by
  obtain ⟨registry, directory, henroll, hprofiles, hcount⟩ := roll_admitViewer harrive
  obtain ⟨attachment, hclient, hcases⟩ := Registry.enroll_cases henroll
  rw [h.book_eq] at hclient
  rw [h.grouping_eq] at hcases
  let key := d.grouping.keyFor attachment.broadcast a.content
  let viewer : Viewer := { user := a.user, content := a.content, address := attachment.address }
  have hkey : d.keyOf? a = some key := by rw [Deployment.keyOf?, hclient]; rfl
  have hviewer : d.viewerOf? a = some viewer := by rw [Deployment.viewerOf?, hclient]; rfl
  suffices hnext : Roll.Complete ⟨registry.profiles, _, _⟩ d (arrivals ++ [a]) by
    rw [← hprofiles] at hnext
    exact hnext
  rcases hcases with ⟨hfind, rfl, -⟩ | ⟨hfind, route, address, -, -, rfl, -⟩
  · obtain ⟨group, hgroup, hsame⟩ := h.group?_of_find? hfind
    have hat : p.registry.profiles[admission.group.index]? = some group.profile := by
      rw [Registry.getElem?_profiles, hgroup]
      rfl
    have hdistinct : ∀ {j other}, p.registry.profiles[j]? = some other →
        other.key = group.profile.key → j = admission.group.index := by
      intro j other hother hsame
      rw [Registry.getElem?_profiles] at hother
      obtain ⟨group', hgroup', rfl⟩ := Option.map_eq_some_iff.mp hother
      exact congrArg Id.index (h.distinct hgroup' hgroup hsame)
    rw [Registry.profiles_addViewer]
    exact hroll.join hat (hkey.trans (congrArg some hsame.symm)) hviewer hdistinct hcount
  · have hfresh : ∀ other ∈ p.registry.profiles, other.key ≠ key := by
      intro other hother
      obtain ⟨group, hmem, rfl⟩ := List.mem_map.mp hother
      obtain ⟨id, hgroup⟩ := Registry.mem_groups_iff.mp hmem
      exact Registry.find?_eq_none_iff.mp hfind hgroup
    let group := p.registry.founded p.book attachment a.accessPoint a.requested a.content a.user
      address route
    have hfounded : group.profile.key = key := by
      show p.registry.grouping.keyFor attachment.broadcast a.content = key
      rw [h.grouping_eq]
    have hlast : group.profile.id = ⟨p.registry.profiles.length⟩ :=
      congrArg Id.mk (List.length_map ..).symm
    show Roll.Complete ⟨(p.registry.groups ++ [group]).map Group.profile, _, _⟩ d (arrivals ++ [a])
    rw [List.map_append]
    exact hroll.found hlast (hfounded ▸ hfresh) (hfounded ▸ hkey) hviewer rfl ⟨rfl, rfl, rfl⟩ hcount

omit [Quantity α] in
theorem roll_escalate {e : Edge} {request : Solver.RequestId}
    (h : p.escalate e = .ok (request, q)) : q.frame.roll = p.frame.roll := by
  obtain ⟨_, -, rfl⟩ := escalate_eq h
  rfl

theorem roll_complete (p : Placement α) (answer : Solver.Answer) :
    (p.complete answer).1.frame.roll = p.frame.roll := by
  by_cases hpending : answer.request ∈ p.pending
  · have hassigned := congrArg Frame.roll
      (frame_assignAll (p.awaited answer) { request := answer.request } answer.assignments)
    rw [complete_of_pending hpending]
    exact hassigned
  · rw [complete_of_not_pending hpending]

/-- Whatever lets nobody in leaves the roll as it is. -/
theorem roll_perform {op : Operation} (h : p.letIn op = []) :
    (p.perform op).frame.roll = p.frame.roll := by
  cases op with
  | arrive accessPoint requested content user =>
      simp only [letIn] at h
      simp only [perform]
      split
      · next harrive =>
          rw [harrive] at h
          cases h
      · rfl
  | react e =>
      simp only [perform, react]
      split
      · exact congrArg Frame.roll (frame_relieve p e)
      · split
        · rfl
        · next hescalate => exact roll_escalate hescalate
  | relieve e => exact congrArg Frame.roll (frame_relieve p e)
  | reallocate candidates => exact congrArg Frame.roll (frame_reallocate p candidates)
  | escalate e =>
      simp only [perform]
      split
      · next hescalate => exact roll_escalate hescalate
      · rfl
  | complete answer => exact roll_complete p answer
  | activate => rfl
  | hangUp => rfl

theorem Coherent.complete_perform (h : Coherent d p) (hroll : p.frame.roll.Complete d arrivals)
    (op : Operation) : (p.perform op).frame.roll.Complete d (arrivals ++ p.letIn op) := by
  cases hletIn : p.letIn op with
  | nil =>
      rw [roll_perform hletIn, List.append_nil]
      exact hroll
  | cons a rest =>
      cases op with
      | arrive accessPoint requested content user =>
          simp only [letIn] at hletIn
          split at hletIn
          · next harrive =>
              obtain ⟨rfl, rfl⟩ := List.cons.inj hletIn
              simp only [perform, harrive]
              exact h.complete_admitViewer hroll harrive
          · cases hletIn
      | _ => cases hletIn

theorem Coherent.complete_run (h : Coherent d p) (hroll : p.frame.roll.Complete d arrivals)
    (ops : List Operation) : (p.run ops).frame.roll.Complete d (arrivals ++ p.arrivals ops) := by
  induction ops generalizing p arrivals with
  | nil =>
      rw [Placement.arrivals, List.append_nil]
      exact hroll
  | cons op rest ih =>
      have hnext := ih (h.changes (h.changes_perform op)).1 (h.complete_perform hroll op)
      rw [List.append_assoc] at hnext
      exact hnext

/-! ### What the solver was told -/

omit [Quantity α] in
theorem requests_escalate {e : Edge} {request : Solver.RequestId}
    (h : p.escalate e = .ok (request, q)) :
    ∃ asked : Solver.Request, asked.roster = p.roster ∧ q.requests = p.requests.push asked := by
  obtain ⟨asked, hroster, rfl⟩ := escalate_eq h
  exact ⟨asked, hroster, rfl⟩

/-- An operation asks the solver nothing, or tells it about all groups as they are. -/
theorem requests_perform (p : Placement α) (op : Operation) :
    (p.perform op).requests = p.requests ∨
      ∃ asked : Solver.Request, asked.roster = p.roster ∧
        (p.perform op).requests = p.requests.push asked := by
  cases op with
  | arrive accessPoint requested content user =>
      simp only [perform]
      split
      · next harrive =>
          obtain ⟨_, _, _, _, _, rfl⟩ := admitViewer_eq harrive
          exact .inl rfl
      · exact .inl rfl
  | react e =>
      simp only [perform, react]
      split
      · exact .inl (congrArg Frame.requests (frame_relieve p e))
      · split
        · exact .inl rfl
        · next hescalate => exact .inr (requests_escalate hescalate)
  | relieve e => exact .inl (congrArg Frame.requests (frame_relieve p e))
  | reallocate candidates => exact .inl (congrArg Frame.requests (frame_reallocate p candidates))
  | escalate e =>
      simp only [perform]
      split
      · next hescalate => exact .inr (requests_escalate hescalate)
      · exact .inl rfl
  | complete answer =>
      left
      have hassigned := congrArg Frame.requests
        (frame_assignAll (p.awaited answer) { request := answer.request } answer.assignments)
      simp only [perform, complete]
      split
      · exact hassigned
      · rfl
  | activate => exact .inl rfl
  | hangUp => exact .inl rfl

omit [Quantity α] in
/-- A roster has every group under its number. -/
theorem group?_of_mem_roster {entry : Solver.RosterEntry} (h : entry ∈ p.roster) :
    ∃ group, p.registry.group? ⟨entry.index⟩ = some group ∧
      entry.accessPoint = group.accessPoint.index ∧ entry.viewers = group.size := by
  obtain ⟨⟨group, i⟩, hmem, rfl⟩ := List.mem_map.mp h
  exact ⟨group, List.mem_zipIdx_iff_getElem?.mp hmem, rfl, rfl⟩

/-- A key leads to the group that has it. -/
theorem Coherent.find?_eq_some (h : Coherent d p) {id : GroupId} {group : Group}
    (hgroup : p.registry.group? id = some group) : p.registry.find? group.key = some id := by
  cases hfind : p.registry.find? group.key with
  | none => exact absurd rfl (Registry.find?_eq_none_iff.mp hfind hgroup)
  | some id' =>
      obtain ⟨group', hgroup', hkey⟩ := h.group?_of_find? hfind
      rw [h.distinct hgroup' hgroup hkey]

end Placement

/-- The group is what it was, but more viewers may have joined. -/
structure Group.Continues (group later : Group) : Prop where
  id_eq : later.id = group.id
  key_eq : later.key = group.key
  accessPoint_eq : later.accessPoint = group.accessPoint
  requested_eq : later.requested = group.requested
  content_eq : later.content = group.content
  viewers_prefix : group.viewers <+: later.viewers

theorem Deployment.Lists.continues {group later : Group} {more : List Arrival}
    (h : d.Lists arrivals i group.profile) (hlater : d.Lists (arrivals ++ more) i later.profile)
    (hkey : later.key = group.key) : group.Continues later := by
  obtain ⟨first, hfirst, haccessPoint, hrequested, hcontent⟩ := h.founder
  obtain ⟨first', hfirst', haccessPoint', hrequested', hcontent'⟩ := hlater.founder
  have hprofile : later.profile.key = group.profile.key := hkey
  -- The first of the key is the first of it for good.
  obtain rfl : first = first' := by
    rw [List.find?_append, hprofile, hfirst] at hfirst'
    exact Option.some.inj hfirst'
  have hviewers : group.viewers.map some <+: later.viewers.map some := by
    refine ⟨(more.filter fun a => d.keyOf? a = some later.profile.key).map d.viewerOf?, ?_⟩
    have hthen := hlater.viewers_eq
    rw [List.filter_append, List.map_append, hprofile, ← h.viewers_eq, ← hprofile] at hthen
    exact hthen.symm
  exact {
    id_eq := hlater.id_eq.trans h.id_eq.symm
    key_eq := hkey
    accessPoint_eq := haccessPoint'.trans haccessPoint.symm
    requested_eq := hrequested'.trans hrequested.symm
    content_eq := hcontent'.trans hcontent.symm
    viewers_prefix := by simpa [List.filterMap_map] using hviewers.filterMap id }

namespace Deployment

theorem complete_after (d : Deployment α) (ops : List Operation) :
    (d.after ops).frame.roll.Complete d (d.start.arrivals ops) := by
  have hstart : d.start.frame.roll.Complete d [] := ⟨rfl, (fun h => by cases h), rfl, rfl⟩
  exact (Placement.coherent_start d).complete_run hstart ops

theorem lists_after (d : Deployment α) (ops : List Operation) {id : GroupId} {group : Group}
    (hgroup : (d.after ops).registry.group? id = some group) :
    d.Lists (d.start.arrivals ops) id.index group.profile := by
  refine (d.complete_after ops).lists ?_
  show (d.after ops).registry.profiles[id.index]? = some group.profile
  rw [Registry.getElem?_profiles, hgroup]
  rfl

/-- A number stands for the same group for good. -/
theorem continues_after (d : Deployment α) (before rest : List Operation) {id : GroupId}
    {group : Group} (hgroup : (d.after before).registry.group? id = some group) :
    ∃ later, (d.after (before ++ rest)).registry.group? id = some later ∧
      group.Continues later := by
  have hbefore := d.coherent_after before
  obtain ⟨later, hlater, hkey⟩ := (hbefore.changes (hbefore.changes_run rest)).2 hgroup
  rw [← d.after_append] at hlater
  have hthen := d.lists_after (before ++ rest) hlater
  rw [Placement.arrivals_append] at hthen
  exact ⟨later, hlater, (d.lists_after before hgroup).continues hthen hkey⟩

/-- Every request to the solver tells about all groups, as they were at some time before. -/
theorem asked_after (d : Deployment α) (ops : List Operation) :
    ∀ request ∈ (d.after ops).requests, ∃ before rest, ops = before ++ rest ∧
      request.roster = (d.after before).roster := by
  induction ops using List.reverseRecOn with
  | nil =>
      intro request hrequest
      cases (Array.not_mem_empty request hrequest)
  | append_singleton ops op ih =>
      intro request hrequest
      have hearlier : request ∈ (d.after ops).requests → ∃ before rest,
          ops ++ [op] = before ++ rest ∧ request.roster = (d.after before).roster := by
        intro hmem
        obtain ⟨before, rest, rfl, hroster⟩ := ih request hmem
        exact ⟨before, rest ++ [op], List.append_assoc .., hroster⟩
      rw [d.after_append] at hrequest
      rcases (d.after ops).requests_perform op with hsame | ⟨asked, hroster, hpush⟩
      · exact hearlier (hsame ▸ hrequest)
      · have hcases : request ∈ (d.after ops).requests.push asked := hpush ▸ hrequest
        rcases Array.mem_push.mp hcases with hmem | rfl
        · exact hearlier hmem
        · exact ⟨ops, [op], rfl, hroster⟩

/-- After any run there is one group for every key among the requests that were let in, in order of
first appearance. A group is found by its key, under its position; it has the viewers of its key, in
order, and is what the first of them made it. Nobody is lost, and everybody is counted. What was
once a group is the same group under the same number later, with whoever came since; and so is every
group that the solver was ever told about. -/
theorem grouped_after (d : Deployment α) (ops : List Operation) :
    let arrivals := d.start.arrivals ops
    let registry := (d.after ops).registry
    registry.groups.map (fun group => some group.key) = (arrivals.map d.keyOf?).eraseDups ∧
    (∀ i group, registry.groups[i]? = some group →
      group.id = ⟨i⟩ ∧ registry.find? group.key = some ⟨i⟩ ∧
      group.viewers.map some =
        (arrivals.filter fun a => d.keyOf? a = some group.key).map d.viewerOf? ∧
      ∃ first, arrivals.find? (fun a => d.keyOf? a = some group.key) = some first ∧
        group.accessPoint = first.accessPoint ∧ group.requested = first.requested ∧
        group.content = first.content) ∧
    ((d.after ops).tally.admitted + (d.after ops).tally.refused = registry.viewers ∧
      registry.viewers = arrivals.length) ∧
    (∀ before rest, ops = before ++ rest → ∀ id group,
      (d.after before).registry.group? id = some group →
        ∃ later, registry.group? id = some later ∧ group.Continues later) ∧
    ∀ request ∈ (d.after ops).requests, ∃ before rest, ops = before ++ rest ∧
      request.roster = (d.after before).roster ∧
      ∀ entry ∈ request.roster, ∃ group later,
        (d.after before).registry.group? ⟨entry.index⟩ = some group ∧
        entry.accessPoint = group.accessPoint.index ∧ entry.viewers = group.size ∧
        registry.group? ⟨entry.index⟩ = some later ∧ group.Continues later := by
  intro arrivals registry
  have hcoherent := d.coherent_after ops
  have hcomplete := d.complete_after ops
  have hviewers : registry.viewers = arrivals.length := by
    rw [← hcomplete.total]
    show _ = (((registry.groups.map Group.profile).map (·.viewers.length)).sum)
    rw [List.map_map]
    rfl
  refine ⟨?_, ?_, ⟨?_, hviewers⟩, ?_, ?_⟩
  · rw [← hcomplete.keys_eq]
    show _ = (registry.groups.map Group.profile).map _
    rw [List.map_map]
    rfl
  · intro i group hgroup
    have hlists := d.lists_after ops hgroup
    exact ⟨hlists.id_eq, hcoherent.find?_eq_some hgroup, hlists.viewers_eq, hlists.founder⟩
  · rw [hviewers]
    exact hcomplete.counted
  · rintro before rest rfl id group hgroup
    exact d.continues_after before rest hgroup
  · intro request hrequest
    obtain ⟨before, rest, rfl, hroster⟩ := d.asked_after ops request hrequest
    refine ⟨before, rest, rfl, hroster, fun entry hentry => ?_⟩
    obtain ⟨group, hgroup, haccessPoint, hsize⟩ := Placement.group?_of_mem_roster (hroster ▸ hentry)
    obtain ⟨later, hlater, hcontinues⟩ := d.continues_after before rest hgroup
    exact ⟨group, later, hgroup, haccessPoint, hsize, hlater, hcontinues⟩

end Deployment

end StreamPlacement
