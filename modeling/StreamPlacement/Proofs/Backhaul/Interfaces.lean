import Mathlib.Data.List.Induction
import StreamPlacement.Proofs.Backhaul.Addresses
import StreamPlacement.Proofs.Backhaul.Dotted
import StreamPlacement.Proofs.Container.OrderedMap

/-!
Where the addresses of the backhaul come from.

A link that is the first to be declared with its ends has the network of its position. A node has
the address of the first interface that was given to it, and this is an interface of such a link; a
node without links has the address of its own number. Every access point has the wireless network of
its position among the access points. All of this is laid out before the first viewer is attached.
-/

namespace StreamPlacement

variable {α : Type}

namespace Topology

/-- A link was declared with these ends, in this order. -/
def Declares (t : Topology α) (e : Edge) : Prop :=
  ∃ link ∈ t.links, link.edge = e

instance (t : Topology α) (e : Edge) : Decidable (t.Declares e) :=
  inferInstanceAs (Decidable (∃ link ∈ t.links, link.edge = e))

/-- The position of the first link that was declared with these ends, in this order. -/
def firstDeclared? (links : List (Link α)) (e : Edge) : Option Nat := links.findIdx? (·.edge = e)

/-- No link has an end at the node. -/
def Lone (t : Topology α) (node : NodeId) : Prop :=
  ∀ link ∈ t.links, link.src ≠ node ∧ link.dst ≠ node

instance (t : Topology α) (node : NodeId) : Decidable (t.Lone node) :=
  inferInstanceAs (Decidable (∀ link ∈ t.links, link.src ≠ node ∧ link.dst ≠ node))

/-- The access points, in order. -/
def accessPoints (t : Topology α) : List Node := t.nodes.filter Node.isAccessPoint

/-- A node stands among the access points. -/
def HasAccessPoint (t : Topology α) (node : NodeId) : Prop :=
  ∃ accessPoint ∈ t.accessPoints, accessPoint.id = node

theorem firstDeclared?_concat (links : List (Link α)) (link : Link α) (e : Edge) :
    firstDeclared? (links ++ [link]) e =
      (firstDeclared? links e).or (if link.edge = e then some links.length else none) := by
  rw [firstDeclared?, List.findIdx?_append, firstDeclared?]
  by_cases h : link.edge = e <;> simp [List.findIdx?_cons, h]

theorem firstDeclared?_eq_none_iff {links : List (Link α)} {e : Edge} :
    firstDeclared? links e = none ↔ ∀ link ∈ links, link.edge ≠ e := by
  simp [firstDeclared?, List.findIdx?_eq_none_iff]

theorem isSome_firstDeclared?_iff {t : Topology α} {e : Edge} :
    (firstDeclared? t.links e).isSome ↔ t.Declares e := by
  rw [← Option.ne_none_iff_isSome, Ne, firstDeclared?_eq_none_iff]
  simp [Declares]

/-- There is a link in this position, and it has these ends. -/
theorem edge_of_firstDeclared? {links : List (Link α)} {e : Edge} {k : Nat}
    (h : firstDeclared? links e = some k) : ∃ link, links[k]? = some link ∧ link.edge = e := by
  obtain ⟨hk, hedge, -⟩ := List.findIdx?_eq_some_iff_getElem.mp h
  exact ⟨links[k], List.getElem?_eq_getElem hk, of_decide_eq_true hedge⟩

end Topology

namespace AddressBook

open StreamPlacement.Topology

variable {t : Topology α} {book book' : AddressBook}

/-! ### Links -/

def HasAddress (book : AddressBook) (node : NodeId) : Prop := (book.nodes.right? node).isSome

theorem hasAddress_addLink {node : NodeId} (h : book.HasAddress node) (link : Link α) (k : Nat) :
    (book.addLink link k).HasAddress node :=
  Pairing.isSome_right?_join (Pairing.isSome_right?_join h _ _) _ _

/-- All addresses so far belong to links in positions below `k`. -/
def NumberedBelow (k : Nat) (book : AddressBook) : Prop :=
  ∀ pair ∈ book.nodes.pairs, ∃ i < k, ∃ host, pair.2 = Address.onLink i host

/-- The interfaces of a link that comes next are free, so both of its ends have an address. -/
theorem NumberedBelow.hasAddress_ends {k : Nat} (h : book.NumberedBelow k) (link : Link α) :
    (book.addLink link k).HasAddress link.src ∧ (book.addLink link k).HasAddress link.dst := by
  have hfree : ∀ host, ∀ pair ∈ book.nodes.pairs, pair.2 ≠ Address.onLink k host := by
    intro host pair hmem heq
    obtain ⟨i, hi, host', heq'⟩ := h pair hmem
    obtain ⟨rfl, -⟩ := Address.onLink_inj.mp (heq'.symm.trans heq)
    exact absurd hi (Nat.lt_irrefl i)
  constructor
  · exact Pairing.isSome_right?_join (Pairing.isSome_right?_join_self (hfree 1) _) _ _
  · refine Pairing.isSome_right?_join_self (fun pair hmem => ?_) _
    rcases Pairing.mem_join hmem with hmem | rfl
    · exact hfree 2 pair hmem
    · intro heq
      exact absurd (Address.onLink_inj.mp heq).2 (by decide)

/-- An interface of the first link that was declared with its ends, at the node of the pair. -/
def OnInterface (links : List (Link α)) (pair : NodeId × Address) : Prop :=
  ∃ k link, links[k]? = some link ∧ firstDeclared? links link.edge = some k ∧
    (pair = (link.src, .onLink k 1) ∨ pair = (link.dst, .onLink k 2))

theorem OnInterface.concat {links : List (Link α)} {pair : NodeId × Address}
    (h : OnInterface links pair) (link : Link α) : OnInterface (links ++ [link]) pair := by
  obtain ⟨k, first, hget, hfirst, hpair⟩ := h
  obtain ⟨hk, -⟩ := List.getElem?_eq_some_iff.mp hget
  refine ⟨k, first, by rw [List.getElem?_append_left hk, hget], ?_, hpair⟩
  rw [firstDeclared?_concat, hfirst, Option.some_or]

/-- The addresses that some links were given. -/
structure Wiring (links : List (Link α)) (book : AddressBook) : Prop where
  link_iff : ∀ e address, (e, address) ∈ book.links.pairs ↔
    ∃ k, firstDeclared? links e = some k ∧ address = .onLink k broadcastHost
  on_interface : ∀ pair ∈ book.nodes.pairs, OnInterface links pair
  ends : ∀ link ∈ links, book.HasAddress link.src ∧ book.HasAddress link.dst

theorem wiring_nil : Wiring ([] : List (Link α)) {} where
  link_iff e address := by simp [firstDeclared?]
  on_interface _ hmem := absurd hmem List.not_mem_nil
  ends _ hmem := absurd hmem List.not_mem_nil

/-- The positions of the links so far are below their number. -/
theorem Wiring.numberedBelow {links : List (Link α)} (h : Wiring links book) :
    book.NumberedBelow links.length := by
  intro pair hmem
  obtain ⟨k, link, hget, -, rfl | rfl⟩ := h.on_interface pair hmem
  · exact ⟨k, (List.getElem?_eq_some_iff.mp hget).1, 1, rfl⟩
  · exact ⟨k, (List.getElem?_eq_some_iff.mp hget).1, 2, rfl⟩

/-- Ends that were not declared before find both sides free. -/
theorem Wiring.free_iff {links : List (Link α)} (h : Wiring links book) (e : Edge) :
    (∀ pair ∈ book.links.pairs, pair.1 ≠ e ∧ pair.2 ≠ .onLink links.length broadcastHost) ↔
      firstDeclared? links e = none := by
  constructor
  · intro hfree
    by_contra hdeclared
    obtain ⟨k, hk⟩ := Option.ne_none_iff_exists'.mp hdeclared
    exact (hfree _ ((h.link_iff e _).mpr ⟨k, hk, rfl⟩)).1 rfl
  · rintro hnone ⟨e', address⟩ hmem
    obtain ⟨k, hk, rfl⟩ := (h.link_iff e' address).mp hmem
    refine ⟨?_, fun heq => ?_⟩
    · rintro rfl
      rw [hnone] at hk
      cases hk
    · obtain ⟨link, hget, -⟩ := edge_of_firstDeclared? hk
      have hlt := (List.getElem?_eq_some_iff.mp hget).1
      obtain ⟨rfl, -⟩ := Address.onLink_inj.mp heq
      exact absurd hlt (Nat.lt_irrefl _)

theorem Wiring.addLink {links : List (Link α)} (h : Wiring links book) (link : Link α) :
    Wiring (links ++ [link]) (book.addLink link links.length) where
  link_iff e address := by
    show (e, address) ∈ (book.links.join link.edge _).pairs ↔ _
    rw [Pairing.mem_join_iff, h.free_iff, firstDeclared?_concat, h.link_iff, Prod.mk.injEq]
    by_cases hedge : link.edge = e
    · subst hedge
      cases firstDeclared? links link.edge with
      | none => simp
      | some k => simp
    · simp [hedge, Ne.symm hedge]
  on_interface := by
    -- If the ends have been declared before, both nodes have their addresses already.
    have hnew : ¬ book.HasAddress link.src ∨ ¬ book.HasAddress link.dst →
        (links ++ [link])[links.length]? = some link ∧
          firstDeclared? (links ++ [link]) link.edge = some links.length := by
      intro hmissing
      have hnone : firstDeclared? links link.edge = none := by
        refine firstDeclared?_eq_none_iff.mpr fun other hother hedge => ?_
        obtain ⟨hsrc, hdst⟩ := h.ends other hother
        obtain ⟨hs, hd⟩ := Prod.mk.inj hedge
        exact hmissing.elim (· (hs ▸ hsrc)) (· (hd ▸ hdst))
      exact ⟨by simp, by rw [firstDeclared?_concat, hnone, if_pos rfl, Option.none_or]⟩
    have hfree : ∀ {p : Pairing NodeId Address} {node : NodeId} {address : Address},
        (∀ other ∈ p.pairs, other.1 ≠ node ∧ other.2 ≠ address) → ¬ (p.right? node).isSome := by
      intro p node address hfree hsome
      obtain ⟨pair, hmem, hpair⟩ := Pairing.isSome_right?_iff.mp hsome
      exact (hfree pair hmem).1 hpair
    intro pair hmem
    rcases Pairing.mem_join_iff.mp hmem with hmem | ⟨rfl, hdst⟩
    · rcases Pairing.mem_join_iff.mp hmem with hmem | ⟨rfl, hsrc⟩
      · exact (h.on_interface pair hmem).concat link
      · obtain ⟨hget, hfirst⟩ := hnew (.inl (hfree hsrc))
        exact ⟨links.length, link, hget, hfirst, .inl rfl⟩
    · obtain ⟨hget, hfirst⟩ :=
        hnew (.inr fun hsome => hfree hdst (Pairing.isSome_right?_join hsome _ _))
      exact ⟨links.length, link, hget, hfirst, .inr rfl⟩
  ends other hother := by
    rcases List.mem_append.mp hother with hother | hother
    · obtain ⟨hsrc, hdst⟩ := h.ends other hother
      exact ⟨hasAddress_addLink hsrc link _, hasAddress_addLink hdst link _⟩
    · obtain rfl := List.mem_singleton.mp hother
      exact h.numberedBelow.hasAddress_ends other

/-- The book that has the addresses of the links. -/
def wired (links : List (Link α)) : AddressBook :=
  links.zipIdx.foldl (fun book (link, k) => book.addLink link k) {}

theorem wiring_wired (links : List (Link α)) : Wiring links (wired links) := by
  induction links using List.reverseRecOn with
  | nil => exact wiring_nil
  | append_singleton links link ih =>
      have hlast : wired (links ++ [link]) = (wired links).addLink link links.length := by
        simp [wired, List.zipIdx_append]
      rw [hlast]
      exact ih.addLink link

/-! ### Nodes without links -/

theorem hasAddress_addIsolated {node : NodeId} (h : book.HasAddress node) (other : Node) :
    (book.addIsolated other).HasAddress node := by
  unfold addIsolated
  split
  · exact h
  · exact Pairing.isSome_right?_join h _ _

/-- The addresses that some of the nodes have, once the links have theirs. -/
structure Reaching (t : Topology α) (nodes : List Node) (book : AddressBook) : Prop where
  origin : ∀ pair ∈ book.nodes.pairs, OnInterface t.links pair ∨
    ∃ node ∈ nodes, t.Lone node.id ∧ pair = (node.id, .isolated node.id)
  ends : ∀ link ∈ t.links, book.HasAddress link.src ∧ book.HasAddress link.dst
  reached : ∀ node ∈ nodes, book.HasAddress node.id

theorem Reaching.addIsolated {nodes : List Node} (h : Reaching t nodes book) (node : Node) :
    Reaching t (nodes ++ [node]) (book.addIsolated node) where
  origin pair hmem := by
    have hbefore (hmem : pair ∈ book.nodes.pairs) : OnInterface t.links pair ∨
        ∃ other ∈ nodes ++ [node], t.Lone other.id ∧ pair = (other.id, .isolated other.id) :=
      (h.origin pair hmem).imp_right fun ⟨other, hother, hlone⟩ =>
        ⟨other, List.mem_append_left _ hother, hlone⟩
    unfold AddressBook.addIsolated at hmem
    split at hmem
    · exact hbefore hmem
    · next hnone =>
        rcases Pairing.mem_join hmem with hmem | rfl
        · exact hbefore hmem
        · have hother : ∀ end', book.HasAddress end' → end' ≠ node.id := by
            rintro _ hend rfl
            exact hnone hend
          exact .inr ⟨node, List.mem_concat_self, fun link hlink =>
            ⟨hother _ (h.ends link hlink).1, hother _ (h.ends link hlink).2⟩, rfl⟩
  ends link hlink := by
    obtain ⟨hsrc, hdst⟩ := h.ends link hlink
    exact ⟨hasAddress_addIsolated hsrc node, hasAddress_addIsolated hdst node⟩
  reached other hother := by
    rcases List.mem_append.mp hother with hother | hother
    · exact hasAddress_addIsolated (h.reached other hother) node
    · obtain rfl := List.mem_singleton.mp hother
      unfold AddressBook.addIsolated
      split
      · assumption
      · next hnone =>
          refine Pairing.isSome_right?_join_self (fun pair hmem heq => ?_) _
          rcases h.origin pair hmem with ⟨k, link, -, -, rfl | rfl⟩ | ⟨other, -, -, rfl⟩
          · exact Address.onLink_ne_isolated _ _ _ heq
          · exact Address.onLink_ne_isolated _ _ _ heq
          · -- Only the node itself can have its address.
            have hnode := Address.isolated_inj.mp heq
            exact hnone (Pairing.isSome_right?_iff.mpr ⟨_, hmem, hnode⟩)

theorem reaching_addIsolated (t : Topology α) (nodes : List Node) :
    Reaching t nodes (nodes.foldl AddressBook.addIsolated (wired t.links)) := by
  have hwired := wiring_wired t.links
  induction nodes using List.reverseRecOn with
  | nil => exact ⟨fun pair hmem => .inl (hwired.on_interface pair hmem), hwired.ends, nofun⟩
  | append_singleton nodes node ih =>
      rw [List.foldl_concat]
      exact ih.addIsolated node

/-! ### The layout -/

/-- All addresses of the backhaul, before any viewer is attached. -/
def laidOut (t : Topology α) : AddressBook :=
  { t.nodes.foldl AddressBook.addIsolated (wired t.links) with
    networks := .ofList (t.accessPoints.zipIdx.map fun (node, j) => (node.id, { position := j })) }

/-- The viewers of client nodes are attached to what is laid out. -/
theorem ofTopology_eq (t : Topology α) :
    ofTopology t = (t.nodes.filter (·.kind == .client)).foldlM (addClientNode t) (laidOut t) := rfl

/-- What is laid out and kept by every viewer holds of all books of the topology. -/
theorem Issued.preserves {P : AddressBook → Prop} (h : Issued t book) (hlaid : P (laidOut t))
    (hattach : ∀ {book book' : AddressBook} {accessPoint : NodeId} {user : UserId}, P book →
      book.attach accessPoint = .ok (user, book') → P book') : P book := by
  have hclients : ∀ {clients : List Node} {book book' : AddressBook}, P book →
      clients.foldlM (addClientNode t) book = .ok book' → P book' := by
    intro clients
    induction clients with
    | nil =>
        intro book book' hbook hrun
        exact Except.ok.inj hrun ▸ hbook
    | cons node rest ih =>
        intro book book' hbook hrun
        rw [List.foldlM_cons, addClientNode] at hrun
        cases hfound : (t.neighbours node.id).find? book.networks.contains with
        | none =>
            rw [hfound] at hrun
            exact ih hbook hrun
        | some accessPoint =>
            rw [hfound] at hrun
            dsimp only at hrun
            cases hresult : book.attach accessPoint with
            | error fault =>
                rw [hresult] at hrun
                cases hrun
            | ok attached =>
                rw [hresult] at hrun
                exact ih (hattach hbook hresult) hrun
  induction h with
  | made hmade => exact hclients hlaid ((ofTopology_eq t).symm.trans hmade)
  | attached _ hresult ih => exact hattach ih hresult

theorem links_addIsolated (book : AddressBook) (node : Node) :
    (book.addIsolated node).links = book.links := by
  unfold addIsolated
  split <;> rfl

/-- Viewers have nothing to do with the addresses of nodes and links. -/
theorem Issued.backhaul_eq (h : Issued t book) :
    book.nodes = (laidOut t).nodes ∧ book.links = (laidOut t).links :=
  h.preserves (P := fun book => book.nodes = (laidOut t).nodes ∧ book.links = (laidOut t).links)
    ⟨rfl, rfl⟩ fun hbook hattach => by
      obtain ⟨_, _, rfl⟩ := attach_eq hattach
      exact hbook

theorem links_laidOut (t : Topology α) : (laidOut t).links = (wired t.links).links :=
  List.foldlRecOn (motive := fun book => book.links = (wired t.links).links) t.nodes _ rfl
    fun book hbook node _ => (links_addIsolated book node).trans hbook

/-- The ends of links have the network of the first link with these ends. -/
theorem linkAddress?_laidOut (t : Topology α) (e : Edge) (address : Address) :
    (e, address) ∈ (laidOut t).links.pairs ↔
      ∃ k, firstDeclared? t.links e = some k ∧ address = .onLink k broadcastHost := by
  rw [links_laidOut]
  exact (wiring_wired t.links).link_iff e address

theorem reaching_laidOut (t : Topology α) : Reaching t t.nodes (laidOut t) := by
  obtain ⟨horigin, hends, hreached⟩ := reaching_addIsolated t t.nodes
  exact ⟨horigin, hends, hreached⟩

/-! ### Wireless networks -/

/-- An access point has the network of a position at which it stands, and no host of it is taken. -/
theorem network_laidOut {accessPoint : NodeId} {network : WirelessNetwork}
    (h : (laidOut t).networks.get? accessPoint = some network) :
    network.nextHost = 2 ∧
      ∃ node, t.accessPoints[network.position]? = some node ∧ node.id = accessPoint := by
  obtain ⟨⟨node, j⟩, hmem, heq⟩ := List.mem_map.mp (OrderedMap.mem_of_get?_ofList h)
  obtain ⟨rfl, rfl⟩ := Prod.mk.inj heq
  exact ⟨rfl, node, List.mem_zipIdx_iff_getElem?.mp hmem, rfl⟩

/-- No two access points have the same network. -/
theorem position_inj {accessPoint accessPoint' : NodeId} {network network' : WirelessNetwork}
    (h : (laidOut t).networks.get? accessPoint = some network)
    (h' : (laidOut t).networks.get? accessPoint' = some network')
    (hposition : network.position = network'.position) : accessPoint = accessPoint' := by
  obtain ⟨-, node, hnode, rfl⟩ := network_laidOut h
  obtain ⟨-, node', hnode', rfl⟩ := network_laidOut h'
  rw [hposition, hnode'] at hnode
  rw [Option.some.inj hnode]

/-- The last access point has the last position. -/
theorem network_of_last {front : List Node} {last : Node} (h : t.accessPoints = front ++ [last]) :
    (laidOut t).networks.get? last.id = some { position := front.length } := by
  have hlast : t.accessPoints.zipIdx = front.zipIdx ++ [(last, front.length)] := by
    rw [h, List.zipIdx_append]
    simp
  show (OrderedMap.ofList (t.accessPoints.zipIdx.map fun (node, j) =>
    (node.id, ({ position := j } : WirelessNetwork)))).get? last.id = _
  rw [hlast, List.map_append, List.map_singleton, OrderedMap.ofList_concat,
    OrderedMap.get?_insert_self]

theorem isSome_network_iff {accessPoint : NodeId} :
    ((laidOut t).networks.get? accessPoint).isSome ↔ t.HasAccessPoint accessPoint := by
  rw [Option.isSome_iff_exists, ← OrderedMap.mem_keys_iff]
  show accessPoint ∈ (OrderedMap.ofList _).keys ↔ _
  rw [OrderedMap.mem_keys_ofList, List.map_map]
  constructor
  · intro hmem
    obtain ⟨⟨node, j⟩, hnode, rfl⟩ := List.mem_map.mp hmem
    exact ⟨node, List.mem_of_getElem? (List.mem_zipIdx_iff_getElem?.mp hnode), rfl⟩
  · rintro ⟨node, hnode, rfl⟩
    obtain ⟨j, hj⟩ := List.mem_iff_getElem?.mp hnode
    exact List.mem_map.mpr ⟨(node, j), List.mem_zipIdx_iff_getElem?.mpr hj, rfl⟩

end AddressBook

end StreamPlacement
