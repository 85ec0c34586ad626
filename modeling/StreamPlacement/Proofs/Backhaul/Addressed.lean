import Mathlib.Data.List.Basic
import StreamPlacement.Proofs.Backhaul.Interfaces
import StreamPlacement.Proofs.Backhaul.Walk

/-!
Which nodes have an address.

Both ends of every link have one. Hence whoever can be reached over a link can be reached at an
address.
-/

namespace StreamPlacement.AddressBook

variable {α : Type} {t : Topology α} {book : AddressBook}

theorem nodeAddress_of_hasAddress {node : NodeId} (h : book.HasAddress node) :
    ∃ address, book.nodeAddress node = .ok address := by
  obtain ⟨address, haddress⟩ := Option.isSome_iff_exists.mp h
  exact ⟨address, by rw [nodeAddress, haddress]⟩

theorem Issued.hasAddress (h : Issued t book) :
    ∀ link ∈ t.links, book.HasAddress link.src ∧ book.HasAddress link.dst := by
  intro link hmem
  rw [HasAddress, HasAddress, h.backhaul_eq.1]
  exact (reaching_laidOut t).ends link hmem

/-- Whoever is joined to another node has an address. -/
theorem Issued.nodeAddress_of_joined (h : Issued t book) {u v : NodeId} (hjoined : t.Joined u v) :
    ∃ address, book.nodeAddress u = .ok address := by
  obtain ⟨link, hmem, hjoins⟩ := hjoined
  obtain ⟨hsrc, hdst⟩ := h.hasAddress link hmem
  rcases (Link.joins_iff link u v).mp hjoins with ⟨rfl, -⟩ | ⟨-, rfl⟩
  · exact nodeAddress_of_hasAddress hsrc
  · exact nodeAddress_of_hasAddress hdst

/-- A walk from a node with an address passes nodes with addresses only. -/
theorem Issued.nodeAddress_of_walk (h : Issued t book) {source dest u : NodeId}
    {hops : List NodeId} (hwalk : t.Walk source dest hops)
    (hsource : ∃ address, book.nodeAddress source = .ok address) (hu : u ∈ hops) :
    ∃ address, book.nodeAddress u = .ok address := by
  induction hwalk with
  | stop =>
      obtain rfl := List.mem_singleton.mp hu
      exact hsource
  | hop joined _ ih =>
      rcases List.mem_cons.mp hu with rfl | hu
      · exact hsource
      · exact ih (h.nodeAddress_of_joined joined.symm) hu

end StreamPlacement.AddressBook
