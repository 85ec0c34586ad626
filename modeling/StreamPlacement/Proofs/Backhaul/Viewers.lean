import Mathlib.Data.List.Nodup
import StreamPlacement.Proofs.Backhaul.Attaching
import StreamPlacement.Proofs.Backhaul.Interfaces

/-!
The viewers behind the access points.

In whatever order viewers are attached, those behind one access point have the host numbers of its
network from 2 on, without gaps and in the order in which they came, and there are at most 253 of
them. Attaching changes nothing of the layout. It fails only where there is no access point or no
host number left.
-/

namespace StreamPlacement.AddressBook

variable {α : Type} {t : Topology α} {book book' : AddressBook}

/-- The most viewers that an access point can have. -/
def mostViewers : Nat := 253

/-- The viewers behind an access point, in the order in which they were attached. -/
def behind (book : AddressBook) (accessPoint : NodeId) : List Attachment :=
  book.clients.toList.filter (·.accessPoint = accessPoint)

theorem mem_behind {accessPoint : NodeId} {viewer : Attachment} :
    viewer ∈ book.behind accessPoint ↔
      viewer ∈ book.clients.toList ∧ viewer.accessPoint = accessPoint := by
  simp [behind]

/-! ### One viewer more -/

/-- The book with one viewer more in a network. -/
def withViewer (book : AddressBook) (accessPoint : NodeId) (network : WirelessNetwork) :
    AddressBook :=
  { book with
    networks := book.networks.insert accessPoint { network with nextHost := network.nextHost + 1 }
    clients := book.clients.push
      { user := ⟨book.clients.size⟩, accessPoint
        address := .onAir network.position network.nextHost
        broadcast := .onAir network.position broadcastHost } }

theorem attach_eq_ok_iff {accessPoint : NodeId} {user : UserId} :
    book.attach accessPoint = .ok (user, book') ↔
      ∃ network, book.networks.get? accessPoint = some network ∧
        network.nextHost ≤ WirelessNetwork.lastHost ∧ user = ⟨book.clients.size⟩ ∧
        book' = book.withViewer accessPoint network := by
  unfold attach
  cases book.networks.get? accessPoint with
  | none => simp
  | some network =>
      by_cases hfull : WirelessNetwork.lastHost < network.nextHost
      · simp [hfull, Nat.not_le.mpr hfull]
      · simp only [hfull, if_false, Except.ok.injEq, Prod.mk.injEq, Option.some.injEq,
          exists_eq_left']
        refine ⟨?_, ?_⟩
        · rintro ⟨rfl, rfl⟩
          exact ⟨Nat.not_lt.mp hfull, rfl, rfl⟩
        · rintro ⟨-, rfl, rfl⟩
          exact ⟨rfl, rfl⟩

theorem attach_eq_error_iff {accessPoint : NodeId} :
    (∃ fault, book.attach accessPoint = .error fault) ↔
      ∀ network, book.networks.get? accessPoint = some network →
        WirelessNetwork.lastHost < network.nextHost := by
  unfold attach
  cases book.networks.get? accessPoint with
  | none => simp
  | some network =>
      by_cases hfull : WirelessNetwork.lastHost < network.nextHost
      · simp [hfull]
      · simp [hfull]

theorem behind_withViewer (accessPoint other : NodeId) (network : WirelessNetwork) :
    (book.withViewer accessPoint network).behind other = book.behind other ++
      if accessPoint = other then
        [{ user := ⟨book.clients.size⟩, accessPoint
           address := .onAir network.position network.nextHost
           broadcast := .onAir network.position broadcastHost }]
      else [] := by
  simp only [behind, withViewer, Array.toList_push, List.filter_append]
  by_cases h : accessPoint = other <;> simp [h]

/-! ### All viewers -/

/-- The viewers of a book, and what is left of the networks. -/
structure Attended (t : Topology α) (book : AddressBook) : Prop where
  networks : ∀ accessPoint, book.networks.get? accessPoint =
    ((laidOut t).networks.get? accessPoint).map
      ({ · with nextHost := 2 + (book.behind accessPoint).length })
  room : ∀ accessPoint, (book.behind accessPoint).length ≤ mostViewers
  users : ∀ (i : Nat) (viewer : Attachment), book.clients[i]? = some viewer → viewer.user = ⟨i⟩
  broadcasts : ∀ viewer ∈ book.clients.toList, ∃ network,
    (laidOut t).networks.get? viewer.accessPoint = some network ∧
      viewer.broadcast = .onAir network.position broadcastHost
  hosts : ∀ accessPoint network, (laidOut t).networks.get? accessPoint = some network →
    (book.behind accessPoint).map (·.address) =
      (List.range' 2 (book.behind accessPoint).length).map (.onAir network.position)

theorem attended_laidOut (t : Topology α) : Attended t (laidOut t) := by
  have hwired : (wired t.links).clients = #[] :=
    List.foldlRecOn (motive := fun book : AddressBook => book.clients = #[]) _ _ rfl
      fun _ hbook _ _ => hbook
  have hnobody : (laidOut t).clients = #[] := by
    refine List.foldlRecOn (motive := fun book : AddressBook => book.clients = #[]) t.nodes
      addIsolated hwired fun book hbook node _ => ?_
    unfold addIsolated
    split <;> exact hbook
  have hbehind : ∀ accessPoint, (laidOut t).behind accessPoint = [] := by
    intro accessPoint
    rw [behind, hnobody]
    rfl
  refine ⟨fun accessPoint => ?_, fun accessPoint => ?_, fun i viewer h => ?_, fun viewer h => ?_,
    fun accessPoint network _ => ?_⟩
  · cases h : (laidOut t).networks.get? accessPoint with
    | none => rfl
    | some network =>
        obtain ⟨position, nextHost⟩ := network
        obtain ⟨rfl, -⟩ := network_laidOut h
        simp [hbehind]
  · simp [hbehind]
  · simp [hnobody] at h
  · simp [hnobody] at h
  · simp [hbehind]

/-- The network that the next viewer gets is that of the layout. -/
theorem Attended.network_eq (h : Attended t book) {accessPoint : NodeId} {network : WirelessNetwork}
    (hnetwork : book.networks.get? accessPoint = some network) :
    network.nextHost = 2 + (book.behind accessPoint).length ∧
      ∃ laid, (laidOut t).networks.get? accessPoint = some laid ∧
        laid.position = network.position := by
  rw [h.networks] at hnetwork
  obtain ⟨laid, hlaid, rfl⟩ := Option.map_eq_some_iff.mp hnetwork
  exact ⟨rfl, laid, hlaid, rfl⟩

theorem Attended.attach (h : Attended t book) {accessPoint : NodeId} {user : UserId}
    (hattach : book.attach accessPoint = .ok (user, book')) : Attended t book' := by
  obtain ⟨network, hnetwork, hroom, -, rfl⟩ := attach_eq_ok_iff.mp hattach
  obtain ⟨hnext, laid, hlaid, hposition⟩ := h.network_eq hnetwork
  refine ⟨fun other => ?_, fun other => ?_, fun i viewer hviewer => ?_, fun viewer hviewer => ?_,
    fun other laid' hother => ?_⟩
  · show (book.networks.insert accessPoint _).get? other = _
    rw [OrderedMap.get?_insert, behind_withViewer]
    by_cases heq : other = accessPoint
    · subst heq
      have hgrown := h.networks other
      rw [hnetwork, hlaid] at hgrown
      obtain rfl := Option.some.inj hgrown
      simp [hlaid, Nat.add_assoc]
    · simp [heq, Ne.symm heq, h.networks]
  · have hbehind := h.room other
    rw [behind_withViewer]
    split
    · next heq =>
        subst heq
        simp only [WirelessNetwork.lastHost] at hroom
        simp only [List.length_append, List.length_singleton, mostViewers]
        omega
    · simpa using hbehind
  · simp only [withViewer, Array.getElem?_push] at hviewer
    split at hviewer
    · next heq =>
        obtain rfl := Option.some.inj hviewer
        rw [heq]
    · exact h.users i viewer hviewer
  · simp only [withViewer, Array.toList_push, List.mem_append, List.mem_singleton] at hviewer
    rcases hviewer with hviewer | rfl
    · exact h.broadcasts viewer hviewer
    · exact ⟨laid, hlaid, by rw [hposition]⟩
  · rw [behind_withViewer]
    split
    · next heq =>
        subst heq
        obtain rfl := Option.some.inj (hlaid.symm.trans hother)
        simp [List.range'_concat, h.hosts _ _ hlaid, hnext, hposition]
    · simpa using h.hosts other laid' hother

theorem Issued.attended (h : Issued t book) : Attended t book :=
  h.preserves (attended_laidOut t) fun hbook hattach => hbook.attach hattach

/-! ### What follows for every book -/

/-- A viewer has a host number of its access point's network. -/
theorem Attended.address_of_viewer (h : Attended t book) {viewer : Attachment}
    (hviewer : viewer ∈ book.clients.toList) : ∃ network host,
      (laidOut t).networks.get? viewer.accessPoint = some network ∧
        viewer.address = .onAir network.position host ∧ 2 ≤ host ∧
        host ≤ WirelessNetwork.lastHost := by
  obtain ⟨network, hnetwork, -⟩ := h.broadcasts viewer hviewer
  have hmem : viewer.address ∈ (book.behind viewer.accessPoint).map (·.address) :=
    List.mem_map_of_mem (mem_behind.mpr ⟨hviewer, rfl⟩)
  rw [h.hosts _ _ hnetwork, List.mem_map] at hmem
  obtain ⟨host, hhost, haddress⟩ := hmem
  obtain ⟨hlow, hhigh⟩ := List.mem_range'_1.mp hhost
  have hroom := h.room viewer.accessPoint
  refine ⟨network, host, hnetwork, haddress.symm, hlow, ?_⟩
  simp only [mostViewers] at hroom
  simp only [WirelessNetwork.lastHost]
  omega

/-- No two viewers have the same address. -/
theorem Attended.distinct (h : Attended t book) :
    book.clients.toList.Pairwise fun viewer other => viewer.address ≠ other.address := by
  refine List.pairwise_iff_forall_sublist.mpr fun {viewer other} hsub heq => ?_
  have hviewer : viewer ∈ book.clients.toList := hsub.subset (by simp)
  have hother : other ∈ book.clients.toList := hsub.subset (by simp)
  obtain ⟨network, host, hnetwork, haddress, -⟩ := h.address_of_viewer hviewer
  obtain ⟨network', host', hnetwork', haddress', -⟩ := h.address_of_viewer hother
  -- Equal addresses are in one network, hence behind one access point.
  have hposition := (Address.onAir_inj.mp (haddress.symm.trans (heq.trans haddress'))).1
  have hsame := position_inj hnetwork hnetwork' hposition
  have hbehind : [viewer, other].Sublist (book.behind viewer.accessPoint) := by
    have hfilter := hsub.filter (·.accessPoint = viewer.accessPoint)
    simpa [behind, hsame] using hfilter
  -- There every host number is given once.
  have hnodup : ((book.behind viewer.accessPoint).map (·.address)).Nodup := by
    rw [h.hosts _ _ hnetwork]
    exact List.Nodup.map (fun _ _ hsame => (Address.onAir_inj.mp hsame).2) List.nodup_range'
  have hpair := hnodup.sublist (hbehind.map (·.address))
  exact absurd heq (by simpa using hpair)

/-- A viewer is refused where there is no access point, or where there are as many viewers as there
can be. -/
theorem Attended.attach_eq_error_iff (h : Attended t book) (accessPoint : NodeId) :
    (∃ fault, book.attach accessPoint = .error fault) ↔
      ¬ t.HasAccessPoint accessPoint ∨ (book.behind accessPoint).length = mostViewers := by
  rw [AddressBook.attach_eq_error_iff, ← isSome_network_iff]
  have hroom := h.room accessPoint
  have hnetworks := h.networks accessPoint
  cases hlaid : (laidOut t).networks.get? accessPoint with
  | none =>
      rw [hlaid] at hnetworks
      simp [hnetworks]
  | some laid =>
      rw [hlaid] at hnetworks
      simp only [hnetworks, Option.map_some, Option.some.injEq, forall_eq', Option.isSome_some,
        not_true_eq_false, false_or]
      simp only [WirelessNetwork.lastHost, mostViewers] at hroom ⊢
      omega

end StreamPlacement.AddressBook
