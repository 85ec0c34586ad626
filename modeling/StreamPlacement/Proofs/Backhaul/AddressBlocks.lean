import StreamPlacement.Proofs.Backhaul.DistinctAddresses
import StreamPlacement.Proofs.Decimal.Numeral
import StreamPlacement.Proofs.Text.Fields

/-!
How far the addresses reach.

Links, nodes and access points are counted on without a limit, and what is counted is written as two
numbers of an address, the quotient and the remainder by 256. So the addresses of links stay octets
for the first 65536 of them, and those of lone nodes for numbers below 65536. The wireless networks
start at 192.168 and go on at 192.169 with the 257th access point; the numbers stay octets for 22528
of them. Behind these limits nothing is refused.
-/

namespace StreamPlacement

/-! ### Octets -/

/-- The octet that a text spells: a number of at most 255 in decimal, without leading zeros. -/
def readOctet? (text : List Char) : Option Nat :=
  let n := Decimal.ofDigits text
  if n ≤ 255 ∧ Nat.toDigits 10 n = text then some n else none

theorem readOctet?_toDigits (n : Nat) :
    readOctet? (Nat.toDigits 10 n) = if n ≤ 255 then some n else none := by
  simp [readOctet?, Decimal.ofDigits_toDigits]

namespace Address

/-- The octets between the dots of an address, if there is nothing else between them. -/
def octets? (address : Address) : Option (List Nat) :=
  (Text.pieces (· == '.') address.toList).mapM readOctet?

/-- Four octets, the first of which are those of the block. -/
def InBlock (block : List Nat) (address : Address) : Prop :=
  ∃ octets ∈ octets? address, octets.length = 4 ∧ block <+: octets

instance (block : List Nat) (address : Address) : Decidable (InBlock block address) :=
  inferInstanceAs (Decidable (∃ octets ∈ octets? address, octets.length = 4 ∧ block <+: octets))

/-- Four octets. -/
def WellFormed (address : Address) : Prop := InBlock [] address

instance (address : Address) : Decidable (WellFormed address) :=
  inferInstanceAs (Decidable (InBlock [] address))

theorem pieces_toDigits_append (n : Nat) (rest : List Char) :
    Text.pieces (· == '.') (Nat.toDigits 10 n ++ '.' :: rest) =
      Nat.toDigits 10 n :: Text.pieces (· == '.') rest := by
  rw [Text.pieces_append_break _ _ _ _ rfl, Text.pieces_of_no_break]
  · rfl
  · rintro c hc
    exact beq_eq_false_iff_ne.mpr fun heq => dot_notMem_toDigits n (heq ▸ hc)

/-- What is between the dots are the four numbers. -/
theorem pieces_dotted (a b c d : Nat) : Text.pieces (· == '.') (dotted a b c d).toList =
    [a, b, c, d].map (Nat.toDigits 10) := by
  have hlast : Text.pieces (· == '.') (Nat.toDigits 10 d) = [Nat.toDigits 10 d] :=
    Text.pieces_of_no_break fun c hc =>
      beq_eq_false_iff_ne.mpr fun heq => dot_notMem_toDigits d (heq ▸ hc)
  rw [toList_dotted, pieces_toDigits_append, pieces_toDigits_append, pieces_toDigits_append, hlast]
  rfl

theorem inBlock_dotted_iff {block : List Nat} {a b c d : Nat} :
    InBlock block (dotted a b c d) ↔
      (a ≤ 255 ∧ b ≤ 255 ∧ c ≤ 255 ∧ d ≤ 255) ∧ block <+: [a, b, c, d] := by
  have hoctets : octets? (dotted a b c d) =
      if a ≤ 255 ∧ b ≤ 255 ∧ c ≤ 255 ∧ d ≤ 255 then some [a, b, c, d] else none := by
    rw [octets?, pieces_dotted]
    simp only [List.map_cons, List.map_nil, List.mapM_cons, List.mapM_nil, readOctet?_toDigits]
    by_cases ha : a ≤ 255 <;> by_cases hb : b ≤ 255 <;> by_cases hc : c ≤ 255 <;>
      by_cases hd : d ≤ 255 <;> simp [ha, hb, hc, hd]
  rw [InBlock, hoctets]
  split
  · next hfits => simp [hfits]
  · next hfits => simp [hfits]

theorem inBlock_onLink_iff {block : List Nat} (hblock : block <+: [10]) {k host : Nat}
    (hhost : host ≤ 255) : InBlock block (onLink k host) ↔ k < 65536 := by
  have hbegins : block <+: [10, k / 256, k % 256, host] := hblock.trans (List.prefix_append _ _)
  rw [onLink, inBlock_dotted_iff]
  simp only [hbegins, and_true]
  omega

theorem inBlock_isolated_iff {block : List Nat} (hblock : block <+: [172, 16]) {node : NodeId} :
    InBlock block (isolated node) ↔ node.index < 65536 := by
  have hbegins : block <+: [172, 16, node.index / 256, node.index % 256] :=
    hblock.trans (List.prefix_append _ _)
  rw [isolated, inBlock_dotted_iff]
  simp only [hbegins, and_true]
  omega

theorem inBlock_onAir_iff {j host : Nat} (hhost : host ≤ 255) :
    InBlock [192, 168] (onAir j host) ↔ j < 256 := by
  rw [onAir, inBlock_dotted_iff]
  simp only [List.cons_prefix_cons, List.nil_prefix, and_true, true_and]
  omega

theorem wellFormed_onAir_iff {j host : Nat} (hhost : host ≤ 255) :
    WellFormed (onAir j host) ↔ j < 22528 := by
  rw [WellFormed, onAir, inBlock_dotted_iff]
  simp only [List.nil_prefix, and_true]
  omega

end Address

namespace Topology

variable {α : Type} {t : Topology α}

/-- All ends of links are declared among the first 65536 links already, nodes without links have
numbers below 65536, and there are not too many access points. -/
structure Addressable (mostAccessPoints : Nat) (t : Topology α) : Prop where
  links : ∀ link ∈ t.links, ∃ first ∈ t.links.take 65536, first.edge = link.edge
  lone : ∀ node ∈ t.nodes, t.Lone node.id → node.id.index < 65536
  accessPoints : t.accessPoints.length ≤ mostAccessPoints

theorem lt_of_declared_early {links : List (Link α)} {e : Edge} {k n : Nat}
    (h : firstDeclared? links e = some k) (hearly : ∃ first ∈ links.take n, first.edge = e) :
    k < n := by
  obtain ⟨first, hmem, hedge⟩ := hearly
  obtain ⟨i, hi, rfl⟩ := List.mem_take_iff_getElem.mp hmem
  by_contra hlate
  obtain ⟨_, _, hleast⟩ := List.findIdx?_eq_some_iff_getElem.mp h
  exact absurd (decide_eq_true hedge) (hleast i (by omega))

theorem declared_early {links : List (Link α)} {link : Link α} (hmem : link ∈ links) {n : Nat}
    (h : ∀ k, firstDeclared? links link.edge = some k → k < n) :
    ∃ first ∈ links.take n, first.edge = link.edge := by
  cases hfirst : firstDeclared? links link.edge with
  | none => exact absurd rfl (firstDeclared?_eq_none_iff.mp hfirst link hmem)
  | some k =>
      obtain ⟨first, hget, hedge⟩ := edge_of_firstDeclared? hfirst
      have hearly : (links.take n)[k]? = some first := by
        rw [List.getElem?_take_of_lt (h k hfirst), hget]
      exact ⟨first, List.mem_of_getElem? hearly, hedge⟩

end Topology

namespace AddressBook

open StreamPlacement.Topology

variable {α : Type} {t : Topology α} {book : AddressBook}

/-! ### Blocks -/

/-- The block that the address of a holder is taken from. -/
def blockOf (t : Topology α) : Holder → List Nat
  | .node node => if t.Lone node then [172, 16] else [10]
  | .link _ => [10]
  | .viewer _ => [192, 168]
  | .network _ => [192, 168]

/-- Blocks that hold the first 65536 networks of links, the numbers of lone nodes below 65536, and
the first wireless networks. -/
structure Holds (t : Topology α) (mostAccessPoints : Nat) (block : Holder → List Nat) : Prop where
  link : ∀ e, block (.link e) <+: [10]
  wired : ∀ node, ¬ t.Lone node → block (.node node) <+: [10]
  lone : ∀ node, t.Lone node → block (.node node) <+: [172, 16]
  viewer : ∀ user j host, host ≤ 255 →
    (Address.InBlock (block (.viewer user)) (.onAir j host) ↔ j < mostAccessPoints)
  network : ∀ accessPoint j host, host ≤ 255 →
    (Address.InBlock (block (.network accessPoint)) (.onAir j host) ↔ j < mostAccessPoints)

theorem holds_blockOf (t : Topology α) : Holds t 256 (blockOf t) where
  link _ := List.prefix_rfl
  wired node hwired := by rw [blockOf, if_neg hwired]
  lone node hlone := by rw [blockOf, if_pos hlone]
  viewer _ _ _ := Address.inBlock_onAir_iff
  network _ _ _ := Address.inBlock_onAir_iff

theorem holds_nil (t : Topology α) : Holds t 22528 fun _ => [] where
  link _ := List.nil_prefix
  wired _ _ := List.nil_prefix
  lone _ _ := List.nil_prefix
  viewer _ _ _ := Address.wellFormed_onAir_iff
  network _ _ _ := Address.wellFormed_onAir_iff

theorem OnInterface.not_lone {node : NodeId} {address : Address}
    (h : OnInterface t.links (node, address)) : ¬ t.Lone node := by
  intro hlone
  obtain ⟨k, link, hget, -, heq | heq⟩ := h
  · exact (hlone link (List.mem_of_getElem? hget)).1 (Prod.mk.inj heq).1.symm
  · exact (hlone link (List.mem_of_getElem? hget)).2 (Prod.mk.inj heq).1.symm

theorem OnInterface.onLink_lt {node : NodeId} {k host n : Nat}
    (h : OnInterface t.links (node, .onLink k host))
    (hearly : ∀ link ∈ t.links, ∃ first ∈ t.links.take n, first.edge = link.edge) : k < n := by
  obtain ⟨i, link, hget, hfirst, heq⟩ := h
  have hlt := lt_of_declared_early hfirst (hearly link (List.mem_of_getElem? hget))
  obtain heq | heq := heq <;> obtain ⟨rfl, -⟩ := Address.onLink_inj.mp (Prod.mk.inj heq).2 <;>
    exact hlt

theorem position_lt {accessPoint : NodeId} {network : WirelessNetwork}
    (h : (laidOut t).networks.get? accessPoint = some network) :
    network.position < t.accessPoints.length := by
  obtain ⟨-, node, hget, -⟩ := network_laidOut h
  exact (List.getElem?_eq_some_iff.mp hget).1

/-- Within the limits, every address lies in its block. -/
theorem Placed.inBlock {holder : Holder} {address : Address} (h : Placed t book holder address)
    {most : Nat} {block : Holder → List Nat} (hblock : Holds t most block)
    (hlimits : t.Addressable most) : Address.InBlock (block holder) address := by
  cases h with
  | wired interface host_eq =>
      refine (Address.inBlock_onLink_iff (hblock.wired _ interface.not_lone) ?_).mpr
        (interface.onLink_lt hlimits.links)
      omega
  | lone mem alone =>
      exact (Address.inBlock_isolated_iff (hblock.lone _ alone)).mpr (hlimits.lone _ mem alone)
  | @link e k first =>
      refine (Address.inBlock_onLink_iff (hblock.link e) (Nat.le_refl _)).mpr ?_
      obtain ⟨link, hget, rfl⟩ := edge_of_firstDeclared? first
      exact lt_of_declared_early first (hlimits.links link (List.mem_of_getElem? hget))
  | viewer _ laid _ _ host_le =>
      refine (hblock.viewer _ _ _ (Nat.le_succ_of_le host_le)).mpr ?_
      exact Nat.lt_of_lt_of_le (position_lt laid) hlimits.accessPoints
  | network laid =>
      refine (hblock.network _ _ _ (Nat.le_refl _)).mpr ?_
      exact Nat.lt_of_lt_of_le (position_lt laid) hlimits.accessPoints

/-! ### Beyond the limits -/

theorem Issued.addressOf?_link (h : Issued t book) {e : Edge} {k : Nat}
    (hfirst : firstDeclared? t.links e = some k) :
    book.addressOf? (.link e) = some (.onLink k broadcastHost) := by
  obtain ⟨link, hget, hedge⟩ := edge_of_firstDeclared? hfirst
  obtain ⟨address, haddress⟩ := Option.isSome_iff_exists.mp <|
    (h.isSome_linkAddress? e).mpr ⟨link, List.mem_of_getElem? hget, hedge⟩
  cases h.placed_link haddress with
  | link hfirst' =>
      obtain rfl := Option.some.inj (hfirst.symm.trans hfirst')
      exact haddress

theorem Issued.addressOf?_lone (h : Issued t book) {node : Node} (hnode : node ∈ t.nodes)
    (hlone : t.Lone node.id) :
    book.addressOf? (.node node.id) = some (.isolated node.id) := by
  obtain ⟨address, haddress⟩ := h.handsOut.nodes node hnode
  generalize hid : node.id = id at hlone haddress ⊢
  cases h.placed_node haddress with
  | wired interface _ => exact absurd hlone interface.not_lone
  | lone _ _ => exact addressOf?_node.mpr haddress

/-- If every address lies in its block, the limits are kept. -/
theorem Issued.addressable (h : Issued t book) {most : Nat} {block : Holder → List Nat}
    (hblock : Holds t most block) (hall : ∀ holder address,
      book.addressOf? holder = some address → Address.InBlock (block holder) address) :
    t.Addressable most where
  links link hmem := declared_early hmem fun k hfirst =>
    (Address.inBlock_onLink_iff (hblock.link _) (Nat.le_refl _)).mp
      (hall _ _ (h.addressOf?_link hfirst))
  lone node hmem hlone :=
    (Address.inBlock_isolated_iff (hblock.lone _ hlone)).mp
      (hall _ _ (h.addressOf?_lone hmem hlone))
  accessPoints := by
    rcases List.eq_nil_or_concat t.accessPoints with hnone | ⟨front, last, hlast⟩
    · rw [hnone]
      exact Nat.zero_le _
    · rw [List.concat_eq_append] at hlast
      have haddress := h.attended.network_address (network_of_last hlast)
      rw [hlast, List.length_append, List.length_singleton]
      exact (hblock.network _ _ _ (Nat.le_refl _)).mp (hall _ _ haddress)

theorem Issued.inBlock_iff (h : Issued t book) {most : Nat} {block : Holder → List Nat}
    (hblock : Holds t most block) :
    (∀ holder address, book.addressOf? holder = some address →
      Address.InBlock (block holder) address) ↔ t.Addressable most :=
  ⟨h.addressable hblock, fun hlimits _ _ haddress =>
    (h.placed haddress).inBlock hblock hlimits⟩

/-- When the addresses of a book lie in the blocks they are taken from, when all of them are four
octets, and when those are that a viewer is given. -/
structure Ranged (t : Topology α) (book : AddressBook) : Prop where
  inBlock_iff : (∀ holder address, book.addressOf? holder = some address →
    Address.InBlock (blockOf t holder) address) ↔ t.Addressable 256
  wellFormed_iff : (∀ holder address, book.addressOf? holder = some address →
    Address.WellFormed address) ↔ t.Addressable 22528
  viewers : ∀ user viewer, book.client? user = some viewer → ∃ position accessPoint,
    t.accessPoints[position]? = some accessPoint ∧ accessPoint.id = viewer.accessPoint ∧
      ∀ address ∈ [viewer.address, viewer.broadcast],
        (Address.InBlock [192, 168] address ↔ position < 256) ∧
          (Address.WellFormed address ↔ position < 22528)

theorem Issued.ranged (h : Issued t book) : Ranged t book where
  inBlock_iff := h.inBlock_iff (holds_blockOf t)
  wellFormed_iff := h.inBlock_iff (holds_nil t)
  viewers user viewer hclient := by
    obtain ⟨network, host, hlaid, haddress, -, hhost⟩ :=
      h.attended.address_of_viewer (mem_clients hclient)
    obtain ⟨network', hlaid', hbroadcast⟩ := h.attended.broadcasts viewer (mem_clients hclient)
    obtain rfl := Option.some.inj (hlaid.symm.trans hlaid')
    obtain ⟨-, node, hget, hid⟩ := network_laidOut hlaid
    refine ⟨network.position, node, hget, hid, ?_⟩
    have hoctet : ∀ host ≤ 255, (Address.InBlock [192, 168] (.onAir network.position host) ↔
        network.position < 256) ∧
          (Address.WellFormed (.onAir network.position host) ↔ network.position < 22528) :=
      fun host hhost => ⟨Address.inBlock_onAir_iff hhost, Address.wellFormed_onAir_iff hhost⟩
    rw [haddress, hbroadcast]
    simpa using ⟨hoctet host (Nat.le_succ_of_le hhost), hoctet broadcastHost (Nat.le_refl _)⟩

/-- Whatever viewers are attached, all addresses lie in their blocks if and only if the topology is
within the limits, with at most 256 access points; and all are four octets if and only if it is
within them, with at most 22528. -/
theorem ranged_grown {made : AddressBook} (h : ofTopology t = .ok made) (growths : List Growth) :
    Ranged t (made.grown growths) :=
  ((Issued.made h).grown growths).ranged

theorem ranged_star : ∃ made, ofTopology star = .ok made ∧
    Ranged star (made.grown [.viewer ⟨2⟩]) ∧ star.Addressable 256 :=
  ⟨_, rfl, ranged_grown rfl _, by decide, by decide, by decide⟩

/-! ### Without a limit -/

/-- Without client nodes, a book has no viewers to begin with. -/
theorem ofTopology_of_no_client (h : ∀ node ∈ t.nodes, node.kind ≠ .client) :
    ofTopology t = .ok (laidOut t) := by
  have hnone : t.nodes.filter (·.kind == .client) = [] := by simpa using h
  rw [ofTopology_eq, hnone]
  rfl

/-- The first viewer at the last access point, with others in front of it, has host 2. -/
theorem attach_to_last {front : List Node} {last : Node} (h : t.accessPoints = front ++ [last]) :
    ∃ user grown viewer, (laidOut t).attach last.id = .ok (user, grown) ∧
      grown.client? user = some viewer ∧ viewer.address = .onAir front.length 2 := by
  have hroom : 2 ≤ WirelessNetwork.lastHost := by decide
  have hattach := attach_eq_ok_iff.mpr ⟨_, network_of_last h, hroom, rfl, rfl⟩
  exact ⟨_, _, _, hattach, Array.getElem?_push_size, rfl⟩

def draft (nodes : List Node) (links : List (Link Rat)) : Topology Rat :=
  { Topology.empty 1 with nodes, links }

/-- Access points with the first numbers. -/
def crowd (size : Nat) : List Node := (List.range size).map fun i => ⟨⟨i⟩, .accessPoint, none⟩

/-- The same link many times, and once more in the other direction. -/
def cables (size : Nat) : List (Link Rat) :=
  List.replicate size ⟨⟨0⟩, ⟨1⟩, 10, 0, 0, 0⟩ ++ [⟨⟨1⟩, ⟨0⟩, 10, 0, 0, 0⟩]

/-- The 257th access point has its viewers outside of 192.168, and the address of the 65537th link
is not even one. -/
theorem addresses_beyond :
    (∃ built made user grown viewer, (draft (crowd 257) []).build 257 = .ok built ∧
      ofTopology built = .ok made ∧ made.attach ⟨256⟩ = .ok (user, grown) ∧
      grown.client? user = some viewer ∧ viewer.address = "192.169.0.2" ∧
      ¬ Address.InBlock [192, 168] viewer.address) ∧
    ∃ built made, (draft (crowd 2) (cables 65536)).build 2 = .ok built ∧
      ofTopology built = .ok made ∧ made.linkAddress? (⟨1⟩, ⟨0⟩) = some "10.256.0.255" ∧
      ¬ Address.WellFormed "10.256.0.255" := by
  constructor
  · have hbuilt := (build_eq_ok_iff (t := draft (crowd 257) []) (n := 257)).mpr
      ⟨by decide +kernel, by decide, rfl⟩
    have hmade := ofTopology_of_no_client (t := (draft (crowd 257) []).builtOver 257)
      (by decide +kernel)
    have hlast : ((draft (crowd 257) []).builtOver 257).accessPoints =
        crowd 256 ++ [⟨⟨256⟩, .accessPoint, none⟩] := by decide +kernel
    obtain ⟨user, grown, viewer, hattach, hclient, haddress⟩ := attach_to_last hlast
    have htext : viewer.address = "192.169.0.2" := haddress.trans (by decide +kernel)
    exact ⟨_, _, user, grown, viewer, hbuilt, hmade, hattach, hclient, htext,
      htext ▸ by decide⟩
  · have hinside : ∀ link ∈ cables 65536, link.src.index < 2 ∧ link.dst.index < 2 := by
      intro link hlink
      rcases List.mem_append.mp hlink with hlink | hlink
      · rw [List.eq_of_mem_replicate hlink]
        decide
      · rw [List.mem_singleton.mp hlink]
        decide
    have hbuilt := (build_eq_ok_iff (t := draft (crowd 2) (cables 65536)) (n := 2)).mpr
      ⟨by decide, hinside, rfl⟩
    have hmade := ofTopology_of_no_client (t := (draft (crowd 2) (cables 65536)).builtOver 2)
      (by decide)
    have hfirst : firstDeclared? (cables 65536) (⟨1⟩, ⟨0⟩) = some 65536 := by
      have hnone : firstDeclared? (List.replicate 65536 (⟨⟨0⟩, ⟨1⟩, 10, 0, 0, 0⟩ : Link Rat))
          (⟨1⟩, ⟨0⟩) = none := by
        refine firstDeclared?_eq_none_iff.mpr fun link hlink => ?_
        rw [List.eq_of_mem_replicate hlink]
        decide
      rw [cables, firstDeclared?_concat, hnone, List.length_replicate]
      rfl
    have haddress := (Issued.made hmade).addressOf?_link hfirst
    exact ⟨_, _, hbuilt, hmade, haddress.trans (congrArg some (by decide)), by decide⟩

end AddressBook

end StreamPlacement
