import StreamPlacement.Proofs.Backhaul.Interfaces

/-!
Which links have an address.

A pair of ends gets the address of the first link that was declared between them, in this order of
the ends, and every further link between them goes without.
-/

namespace StreamPlacement.AddressBook

variable {α : Type} {t : Topology α} {book : AddressBook}

theorem oneToOne_links_laidOut (t : Topology α) : (laidOut t).links.OneToOne := by
  rw [links_laidOut]
  exact List.foldlRecOn (motive := fun book : AddressBook => book.links.OneToOne) _ _
    Pairing.oneToOne_empty fun book hbook _ _ => Pairing.OneToOne.join hbook _ _

theorem Issued.links (h : Issued t book) :
    book.links.OneToOne ∧ ∀ e, (book.linkAddress? e).isSome ↔ t.Declares e := by
  rw [h.backhaul_eq.2]
  refine ⟨oneToOne_links_laidOut t, fun e => ?_⟩
  rw [linkAddress?, h.backhaul_eq.2, Pairing.isSome_right?_iff,
    ← Topology.isSome_firstDeclared?_iff]
  constructor
  · rintro ⟨⟨e, address⟩, hmem, rfl⟩
    obtain ⟨k, hfirst, -⟩ := (linkAddress?_laidOut t e address).mp hmem
    exact Option.isSome_iff_exists.mpr ⟨k, hfirst⟩
  · intro hdeclared
    obtain ⟨k, hfirst⟩ := Option.isSome_iff_exists.mp hdeclared
    exact ⟨_, (linkAddress?_laidOut t e _).mpr ⟨k, hfirst, rfl⟩, rfl⟩

/-- The ends behind the address of two ends are these ends. -/
theorem Issued.linkAt?_eq_some_iff (h : Issued t book) {address : Address} {e : Edge} :
    book.linkAt? address = some e ↔ book.linkAddress? e = some address :=
  ⟨h.links.1.right?_of_left?, h.links.1.left?_of_right?⟩

/-- The ends of links have addresses, in the order in which they were declared, and no others. -/
theorem Issued.isSome_linkAddress? (h : Issued t book) (e : Edge) :
    (book.linkAddress? e).isSome ↔ t.Declares e := h.links.2 e

end StreamPlacement.AddressBook
