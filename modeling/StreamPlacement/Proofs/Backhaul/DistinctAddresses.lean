import StreamPlacement.Proofs.Backhaul.Addressed
import StreamPlacement.Proofs.Backhaul.Building
import StreamPlacement.Proofs.Backhaul.LinkAddresses
import StreamPlacement.Proofs.Backhaul.Viewers

/-!
No address is handed out twice.

Addresses go to nodes, to the ends of links, to viewers and to the wireless networks of access
points. What they are written with tells these apart: the first number is 10 for a link and its
ends, 172 for a node without links and 192 on the air; a host number is 1 or 2 at the end of a link,
from 2 to 254 for a viewer, and 255 for a whole network. The numbers between them tell who of a kind
has the address. So the holder of an address is determined by its text, whatever was attached.
-/

namespace StreamPlacement.AddressBook

open StreamPlacement.Topology

variable {α : Type} {t : Topology α} {book : AddressBook}

/-- Who can have an address. -/
inductive Holder
  | node (node : NodeId)
  | link (e : Edge)
  | viewer (user : UserId)
  /-- The wireless network of an access point, whose address its viewers share. -/
  | network (accessPoint : NodeId)
  deriving DecidableEq

def addressOf? (book : AddressBook) : Holder → Option Address
  | .node node => (book.nodeAddress node).toOption
  | .link e => book.linkAddress? e
  | .viewer user => (book.client? user).map (·.address)
  | .network accessPoint => (book.networks.get? accessPoint).map fun network =>
      .onAir network.position broadcastHost

theorem addressOf?_node {node : NodeId} {address : Address} :
    book.addressOf? (.node node) = some address ↔ book.nodeAddress node = .ok address := by
  rw [addressOf?]
  cases book.nodeAddress node <;> simp [Except.toOption]

/-- The address of a holder as it is written. -/
inductive Placed (t : Topology α) (book : AddressBook) : Holder → Address → Prop
  | wired {node : NodeId} {k host : Nat} (interface : OnInterface t.links (node, .onLink k host))
      (host_eq : host = 1 ∨ host = 2) : Placed t book (.node node) (.onLink k host)
  | lone {node : Node} (mem : node ∈ t.nodes) (alone : t.Lone node.id) :
      Placed t book (.node node.id) (.isolated node.id)
  | link {e : Edge} {k : Nat} (first : firstDeclared? t.links e = some k) :
      Placed t book (.link e) (.onLink k broadcastHost)
  | viewer {user : UserId} {attachment : Attachment} {network : WirelessNetwork} {host : Nat}
      (client : book.client? user = some attachment)
      (laid : (laidOut t).networks.get? attachment.accessPoint = some network)
      (address_eq : attachment.address = .onAir network.position host)
      (host_ge : 2 ≤ host) (host_le : host ≤ WirelessNetwork.lastHost) :
      Placed t book (.viewer user) (.onAir network.position host)
  | network {accessPoint : NodeId} {network : WirelessNetwork}
      (laid : (laidOut t).networks.get? accessPoint = some network) :
      Placed t book (.network accessPoint) (.onAir network.position broadcastHost)

theorem Issued.placed_node (h : Issued t book) {node : NodeId} {address : Address}
    (haddress : book.nodeAddress node = .ok address) : Placed t book (.node node) address := by
  have hright : book.nodes.right? node = some address := by
    unfold nodeAddress at haddress
    split at haddress
    · next hright => rw [hright, Except.ok.inj haddress]
    · cases haddress
  have hmem := Pairing.mem_of_right? hright
  rw [h.backhaul_eq.1] at hmem
  rcases (reaching_laidOut t).origin _ hmem with hinterface | ⟨other, hother, hlone, heq⟩
  · obtain ⟨k, link, hget, hfirst, heq | heq⟩ := hinterface
    · obtain ⟨rfl, rfl⟩ := Prod.mk.inj heq
      exact .wired ⟨k, link, hget, hfirst, .inl rfl⟩ (.inl rfl)
    · obtain ⟨rfl, rfl⟩ := Prod.mk.inj heq
      exact .wired ⟨k, link, hget, hfirst, .inr rfl⟩ (.inr rfl)
  · obtain ⟨rfl, rfl⟩ := Prod.mk.inj heq
    exact .lone hother hlone

theorem Issued.placed_link (h : Issued t book) {e : Edge} {address : Address}
    (haddress : book.linkAddress? e = some address) : Placed t book (.link e) address := by
  have hmem := Pairing.mem_of_right? haddress
  rw [h.backhaul_eq.2] at hmem
  obtain ⟨k, hfirst, rfl⟩ := (linkAddress?_laidOut t e address).mp hmem
  exact .link hfirst

theorem mem_clients {user : UserId} {viewer : Attachment} (h : book.client? user = some viewer) :
    viewer ∈ book.clients.toList := by
  rw [client?, ← Array.getElem?_toList] at h
  exact List.mem_of_getElem? h

/-- Every address is written as its holder has it. -/
theorem Issued.placed (h : Issued t book) {holder : Holder} {address : Address}
    (haddress : book.addressOf? holder = some address) : Placed t book holder address := by
  cases holder with
  | node node => exact h.placed_node (addressOf?_node.mp haddress)
  | link e => exact h.placed_link haddress
  | viewer user =>
      obtain ⟨viewer, hclient, rfl⟩ := Option.map_eq_some_iff.mp haddress
      obtain ⟨network, host, hlaid, heq, hlow, hhigh⟩ :=
        h.attended.address_of_viewer (mem_clients hclient)
      exact heq ▸ .viewer hclient hlaid heq hlow hhigh
  | network accessPoint =>
      obtain ⟨network, hnetwork, rfl⟩ := Option.map_eq_some_iff.mp haddress
      obtain ⟨-, laid, hlaid, hposition⟩ := h.attended.network_eq hnetwork
      exact hposition ▸ .network hlaid

/-! ### Who has an address -/

/-- What the first number and the host number of an address say about its holder. -/
def Holder.Marked : Holder → Nat → Nat → Prop
  | .node _, first, host => (first = 10 ∧ (host = 1 ∨ host = 2)) ∨ first = 172
  | .link _, first, host => first = 10 ∧ host = broadcastHost
  | .viewer _, first, host => first = 192 ∧ host ≤ WirelessNetwork.lastHost
  | .network _, first, host => first = 192 ∧ host = broadcastHost

theorem Placed.marked {holder : Holder} {address : Address} (h : Placed t book holder address) :
    ∃ first second third host, address = .dotted first second third host ∧
      holder.Marked first host := by
  cases h with
  | wired _ host_eq => exact ⟨_, _, _, _, rfl, .inl ⟨rfl, host_eq⟩⟩
  | lone _ _ => exact ⟨_, _, _, _, rfl, .inr rfl⟩
  | link _ => exact ⟨_, _, _, _, rfl, rfl, rfl⟩
  | viewer _ _ _ _ host_le => exact ⟨_, _, _, _, rfl, rfl, host_le⟩
  | network _ => exact ⟨_, _, _, _, rfl, rfl, rfl⟩

/-- Viewers with the same address are the same. -/
theorem Attended.user_eq (h : Attended t book) {user user' : UserId} {viewer viewer' : Attachment}
    (hclient : book.client? user = some viewer) (hclient' : book.client? user' = some viewer')
    (haddress : viewer.address = viewer'.address) : user = user' := by
  have hnodup : (book.clients.toList.map (·.address)).Nodup := List.pairwise_map.mpr h.distinct
  have hget : ∀ {user : UserId} {viewer : Attachment}, book.client? user = some viewer →
      (book.clients.toList.map (·.address))[user.index]? = some viewer.address := by
    intro user viewer hclient
    rw [client?, ← Array.getElem?_toList] at hclient
    rw [List.getElem?_map, hclient, Option.map_some]
  obtain ⟨hlt, -⟩ := List.getElem?_eq_some_iff.mp (hget hclient)
  refine Id.index_injective ((List.getElem?_inj hlt hnodup).mp ?_)
  rw [hget hclient, hget hclient', haddress]

/-- Access points with the same network are the same. -/
theorem Attended.accessPoint_eq (h : Attended t book) {accessPoint accessPoint' : NodeId}
    {address : Address} (hnetwork : book.addressOf? (.network accessPoint) = some address)
    (hnetwork' : book.addressOf? (.network accessPoint') = some address) :
    accessPoint = accessPoint' := by
  obtain ⟨network, hget, rfl⟩ := Option.map_eq_some_iff.mp hnetwork
  obtain ⟨network', hget', heq⟩ := Option.map_eq_some_iff.mp hnetwork'
  obtain ⟨-, laid, hlaid, hposition⟩ := h.network_eq hget
  obtain ⟨-, laid', hlaid', hposition'⟩ := h.network_eq hget'
  have hsame := (Address.onAir_inj.mp heq).1
  exact position_inj hlaid hlaid' (by rw [hposition, hposition', hsame])

/-- The text of an address determines who has it. -/
theorem Issued.holder_eq (h : Issued t book) {holder holder' : Holder} {address : Address}
    (haddress : book.addressOf? holder = some address)
    (haddress' : book.addressOf? holder' = some address) : holder = holder' := by
  obtain ⟨first, second, third, host, hdotted, hmarked⟩ := (h.placed haddress).marked
  obtain ⟨first', second', third', host', hdotted', hmarked'⟩ :=
    (h.placed haddress').marked
  obtain ⟨rfl, -, -, rfl⟩ := Address.dotted_inj.mp (hdotted.symm.trans hdotted')
  -- The two numbers tell holders of different kinds apart.
  cases holder <;> cases holder' <;>
    simp only [Holder.Marked, broadcastHost, WirelessNetwork.lastHost] at hmarked hmarked' <;>
    try omega
  case node.node node node' =>
    have hback := h.nodeAt?_of_nodeAddress (addressOf?_node.mp haddress)
    have hback' := h.nodeAt?_of_nodeAddress (addressOf?_node.mp haddress')
    rw [Option.some.inj (hback.symm.trans hback')]
  case link.link e e' =>
    have hback := h.linkAt?_eq_some_iff.mpr haddress
    have hback' := h.linkAt?_eq_some_iff.mpr haddress'
    rw [Option.some.inj (hback.symm.trans hback')]
  case viewer.viewer user user' =>
    obtain ⟨viewer, hclient, heq⟩ := Option.map_eq_some_iff.mp haddress
    obtain ⟨viewer', hclient', heq'⟩ := Option.map_eq_some_iff.mp haddress'
    rw [h.attended.user_eq hclient hclient' (heq.trans heq'.symm)]
  case network.network accessPoint accessPoint' =>
    rw [h.attended.accessPoint_eq haddress haddress']

/-! ### What is handed out -/

/-- Every node and all ends that were declared have addresses, no two holders the same, and an
address leads back to who has it. Viewers are numbered as they come, and behind each access point
from host 2 on. A viewer is refused only where there is no access point or where it is full, and
this leaves the book as it was. -/
structure HandsOut (t : Topology α) (book : AddressBook) : Prop where
  nodes : ∀ node ∈ t.nodes, ∃ address, book.nodeAddress node.id = .ok address
  links : ∀ e, (book.linkAddress? e).isSome ↔ t.Declares e
  networks : ∀ accessPoint,
    (book.addressOf? (.network accessPoint)).isSome ↔ t.HasAccessPoint accessPoint
  distinct : ∀ holder holder' address, book.addressOf? holder = some address →
    book.addressOf? holder' = some address → holder = holder'
  node_back : ∀ address node, book.nodeAt? address = some node ↔ book.nodeAddress node = .ok address
  link_back : ∀ address e, book.linkAt? address = some e ↔ book.linkAddress? e = some address
  users : ∀ user viewer, book.client? user = some viewer → viewer.user = user
  shared : ∀ user viewer, book.client? user = some viewer →
    book.addressOf? (.network viewer.accessPoint) = some viewer.broadcast
  hosts : ∀ accessPoint, t.HasAccessPoint accessPoint → ∃ position,
    book.addressOf? (.network accessPoint) = some (.onAir position broadcastHost) ∧
      (book.behind accessPoint).map (·.address) =
        (List.range' 2 (book.behind accessPoint).length).map (.onAir position)
  refuses : ∀ accessPoint, (∃ fault, (book.tryAttach accessPoint).1 = .error fault) ↔
    ¬ t.HasAccessPoint accessPoint ∨ (book.behind accessPoint).length = mostViewers
  refused : ∀ accessPoint fault, (book.tryAttach accessPoint).1 = .error fault →
    (book.tryAttach accessPoint).2 = book

theorem nodeAddress_of_nodeAt? (h : book.nodes.OneToOne) {address : Address} {node : NodeId}
    (hnode : book.nodeAt? address = some node) : book.nodeAddress node = .ok address := by
  rw [nodeAddress, h.right?_of_left? hnode]

theorem tryAttach_fst_eq_error_iff {accessPoint : NodeId} {fault : Fault} :
    (book.tryAttach accessPoint).1 = .error fault ↔ book.attach accessPoint = .error fault := by
  rw [tryAttach_eq]
  cases book.attach accessPoint <;> simp

theorem Attended.network_address (h : Attended t book) {accessPoint : NodeId}
    {laid : WirelessNetwork} (hlaid : (laidOut t).networks.get? accessPoint = some laid) :
    book.addressOf? (.network accessPoint) = some (.onAir laid.position broadcastHost) := by
  rw [addressOf?, h.networks, hlaid]
  rfl

theorem Issued.handsOut (h : Issued t book) : HandsOut t book where
  nodes node hnode := by
    have haddress := (reaching_laidOut t).reached node hnode
    refine nodeAddress_of_hasAddress ?_
    rw [HasAddress, h.backhaul_eq.1]
    exact haddress
  links := h.isSome_linkAddress?
  networks accessPoint := by
    rw [addressOf?, Option.isSome_map, h.attended.networks, Option.isSome_map]
    exact isSome_network_iff
  distinct _ _ _ := h.holder_eq
  node_back _ _ := ⟨nodeAddress_of_nodeAt? h.oneToOne, h.nodeAt?_of_nodeAddress⟩
  link_back _ _ := h.linkAt?_eq_some_iff
  users user viewer hclient := h.attended.users user.index viewer hclient
  shared user viewer hclient := by
    obtain ⟨laid, hlaid, hbroadcast⟩ := h.attended.broadcasts viewer (mem_clients hclient)
    rw [h.attended.network_address hlaid, hbroadcast]
  hosts accessPoint haccess := by
    obtain ⟨laid, hlaid⟩ := Option.isSome_iff_exists.mp (isSome_network_iff.mpr haccess)
    exact ⟨laid.position, h.attended.network_address hlaid, h.attended.hosts _ _ hlaid⟩
  refuses accessPoint := by
    simp only [tryAttach_fst_eq_error_iff]
    exact h.attended.attach_eq_error_iff accessPoint
  refused accessPoint fault hfault := by
    rw [tryAttach_eq, tryAttach_fst_eq_error_iff.mp hfault]

/-- Whatever viewers are attached to the book of a topology, no address is handed out twice. -/
theorem handsOut_grown {made : AddressBook} (h : ofTopology t = .ok made)
    (growths : List Growth) : HandsOut t (made.grown growths) :=
  ((Issued.made h).grown growths).handsOut

/-- A server between two access points, a client behind the first of them and a router without
links. The link of the client is declared twice. -/
def star : Topology Rat := assembled 1 <|
  [.node ⟨⟨0⟩, .cacheServer, none⟩, .node ⟨⟨1⟩, .accessPoint, none⟩,
    .node ⟨⟨2⟩, .accessPoint, none⟩, .node ⟨⟨3⟩, .router, none⟩, .node ⟨⟨4⟩, .client, none⟩,
    .link ⟨⟨0⟩, ⟨1⟩, 10, 0, 0, 0⟩, .link ⟨⟨0⟩, ⟨2⟩, 10, 0, 0, 0⟩, .link ⟨⟨4⟩, ⟨1⟩, 10, 0, 0, 0⟩,
    .link ⟨⟨4⟩, ⟨1⟩, 10, 0, 0, 0⟩, .build 5]

/-- The viewer at the server is refused. -/
theorem handsOut_star : ∃ made, ofTopology star = .ok made ∧
    let book := made.grown [.viewer ⟨1⟩, .viewer ⟨0⟩, .everywhere 2]
    HandsOut star book ∧
      book.nodes.pairs.map Prod.snd =
        ["10.0.0.1", "10.0.0.2", "10.0.1.2", "10.0.2.1", "172.16.0.3"] ∧
      book.clients.toList.map (·.address) = ["192.168.0.2", "192.168.0.3", "192.168.0.4",
        "192.168.0.5", "192.168.1.2", "192.168.1.3"] :=
  ⟨_, rfl, handsOut_grown rfl _, by decide +kernel, by decide +kernel⟩

end StreamPlacement.AddressBook
