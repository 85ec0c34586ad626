import StreamPlacement.Proofs.Backhaul.LinkAddresses
import StreamPlacement.Proofs.Container.OrderedMap
import StreamPlacement.Proofs.Simulation.Turns

/-!
What the monitor has counted.

The monitor keeps one count for each pair of ends that a link was declared with, however many links
were declared so. All that it holds can be read off the topology and the counts, so that each of its
operations is one on the counts.
-/

namespace StreamPlacement

variable {α : Type}

namespace Topology

/-- The ends whose count goes up for what is seen between two nodes: these two, in this order if a
link was declared so, and else the other way round. -/
def metered (t : Topology α) (seen : Edge) : Edge := if t.Declares seen then seen else seen.swap

/-- The number of links that were declared with these ends, in this order. -/
def multiplicity (t : Topology α) (e : Edge) : Nat := t.links.countP (·.edge = e)

theorem metered_of_declares {t : Topology α} {seen : Edge} (h : t.Declares seen) :
    t.metered seen = seen := if_pos h

end Topology

variable {t : Topology α} {book : AddressBook}

/-- Traffic is counted at the address of the ends that it counts for. -/
theorem AddressBook.Issued.linkAddress?_metered (h : book.Issued t) (seen : Edge) :
    ((book.linkAddress? seen).orElse fun _ => book.linkAddress? seen.swap) =
      book.linkAddress? (t.metered seen) := by
  unfold Topology.metered
  split
  · next hdeclared =>
      obtain ⟨address, haddress⟩ :=
        Option.isSome_iff_exists.mp ((h.isSome_linkAddress? seen).mpr hdeclared)
      rw [haddress]
      rfl
  · next hnot =>
      have hnone := Option.not_isSome_iff_eq_none.mp ((h.isSome_linkAddress? seen).not.mpr hnot)
      rw [hnone]
      rfl

variable [Quantity α]

namespace Monitor

variable {m : Monitor α} {count : Edge → Nat}

/-- What there is about a pair of ends. -/
def reading (t : Topology α) (count : Edge → Nat) (e : Edge) : MonitoredLink α where
  edge := e
  capacityMbps := ((t.link? e).map Link.capacityMbps).getD 0
  bytes := count e

/-- The monitor observes the links of the topology, each at its address, and has counted these
bytes. -/
def Shows (m : Monitor α) (t : Topology α) (book : AddressBook) (count : Edge → Nat) : Prop :=
  ∀ address, m.links.get? address = (book.linkAt? address).map (reading t count)

theorem Shows.mem_entries_iff (h : m.Shows t book count) (hbook : book.Issued t)
    {address : Address} {link : MonitoredLink α} : (address, link) ∈ m.links.entries ↔
      book.linkAddress? link.edge = some address ∧ link = reading t count link.edge := by
  rw [OrderedMap.mem_entries_iff, h, Option.map_eq_some_iff]
  constructor
  · rintro ⟨e, he, rfl⟩
    exact ⟨hbook.linkAt?_eq_some_iff.mp he, rfl⟩
  · rintro ⟨haddress, heq⟩
    exact ⟨link.edge, hbook.linkAt?_eq_some_iff.mpr haddress, heq.symm⟩

/-- What is observed are the ends of links. -/
theorem Shows.declares_iff (h : m.Shows t book count) (hbook : book.Issued t) (e : Edge) :
    t.Declares e ↔ ∃ address link, (address, link) ∈ m.links.entries ∧ link.edge = e := by
  rw [← hbook.isSome_linkAddress?, Option.isSome_iff_exists]
  constructor
  · rintro ⟨address, haddress⟩
    exact ⟨address, reading t count e, (h.mem_entries_iff hbook).mpr ⟨haddress, rfl⟩, rfl⟩
  · rintro ⟨address, link, hmem, rfl⟩
    exact ⟨address, ((h.mem_entries_iff hbook).mp hmem).1⟩

/-- However many links have the same ends, these are observed at one address. -/
theorem Shows.address_eq (h : m.Shows t book count) (hbook : book.Issued t)
    {address address' : Address} {link link' : MonitoredLink α}
    (hmem : (address, link) ∈ m.links.entries) (hmem' : (address', link') ∈ m.links.entries)
    (hedge : link.edge = link'.edge) : address = address' := by
  have haddress := ((h.mem_entries_iff hbook).mp hmem).1
  have haddress' := ((h.mem_entries_iff hbook).mp hmem').1
  rw [hedge] at haddress
  exact Option.some.inj (haddress.symm.trans haddress')

/-- Observes a link of the topology at its address. -/
def observe (t : Topology α) (m : Monitor α) (pair : Edge × Address) : Monitor α :=
  m.register pair.2 pair.1 (((t.link? pair.1).map Link.capacityMbps).getD 0)

theorem registerAll_eq (m : Monitor α) (t : Topology α) (book : AddressBook) :
    m.registerAll t book = book.links.pairs.foldl (observe t) m := rfl

theorem get?_observe (t : Topology α) (m : Monitor α) (pair : Edge × Address) (address : Address) :
    (observe t m pair).links.get? address =
      if address = pair.2 then some (reading t (fun _ => 0) pair.1) else m.links.get? address :=
  OrderedMap.get?_insert ..

/-- Where no address comes twice, each is the one of the ends that it came with. -/
theorem get?_observeAll {pairs : List (Edge × Address)} (h : (⟨pairs⟩ : Pairing _ _).OneToOne)
    (m : Monitor α) (address : Address) :
    (pairs.foldl (observe t) m).links.get? address =
      (((⟨pairs⟩ : Pairing _ _).left? address).map (reading t fun _ => 0)).or
        (m.links.get? address) := by
  induction pairs generalizing m with
  | nil => rfl
  | cons pair rest ih =>
      obtain ⟨hfirst, hrest⟩ := List.pairwise_cons.mp h
      rw [List.foldl_cons, ih hrest, get?_observe]
      by_cases hfound : pair.2 = address
      · subst hfound
        have hlast : rest.find? (·.2 = pair.2) = none := by
          simpa using fun e a hmem => (hfirst (e, a) hmem).2.symm
        simp [hlast, Pairing.left?]
      · simp [Pairing.left?, hfound, Ne.symm hfound]

theorem shows_registerAll (hlinks : book.links.OneToOne) (hnone : m.links = ∅) :
    (m.registerAll t book).Shows t book fun _ => 0 := by
  intro address
  rw [registerAll_eq, get?_observeAll hlinks, hnone, OrderedMap.get?_empty, Option.or_none]
  rfl

theorem map_reading_congr {found : Option Edge} {count count' : Edge → Nat}
    (h : ∀ e, found = some e → count e = count' e) :
    found.map (reading t count) = found.map (reading t count') := by
  cases found with
  | none => rfl
  | some e => rw [Option.map_some, Option.map_some, reading, reading, h e rfl]

theorem Shows.congr (h : m.Shows t book count) {count' : Edge → Nat}
    (heq : ∀ e, count e = count' e) : m.Shows t book count' :=
  fun address => (h address).trans (map_reading_congr fun e _ => heq e)

/-- What is seen goes to the counter at the address of the ends that it counts for. -/
theorem Shows.recordLink (h : m.Shows t book count) (hbook : book.Issued t) (seen : Edge)
    (bytes : Nat) :
    (m.recordLink book seen bytes).2.Shows t book fun e =>
      if t.metered seen = e then min wordMax (count e + bytes) else count e := by
  intro address
  unfold Monitor.recordLink
  rw [hbook.linkAddress?_metered]
  -- The counts of all other ends stay.
  have hstays : book.linkAddress? (t.metered seen) ≠ some address →
      m.links.get? address = (book.linkAt? address).map (reading t fun e =>
        if t.metered seen = e then min wordMax (count e + bytes) else count e) := by
    intro hother
    rw [h address]
    refine map_reading_congr fun e he => (if_neg ?_).symm
    rintro rfl
    exact hother (hbook.linkAt?_eq_some_iff.mp he)
  cases hmetered : book.linkAddress? (t.metered seen) with
  | none => exact hstays (by simp [hmetered])
  | some target =>
      show (m.record target bytes).2.links.get? address = _
      rw [get?_record]
      split
      · next heq =>
          have hfound := hbook.linkAt?_eq_some_iff.mpr hmetered
          rw [heq, h target, hfound]
          simp [reading]
      · next hne => exact hstays (by simpa [hmetered] using Ne.symm hne)

theorem Shows.sample (h : m.Shows t book count) : m.sample.2.Shows t book fun _ => 0 := by
  intro address
  show (m.links.map _).get? address = _
  rw [OrderedMap.get?_map, h address, Option.map_map]
  rfl

end Monitor

/-! ### The estimate -/

namespace Simulation

variable {s : Simulation α} {count : Edge → Nat}

/-- The bytes that the demand on the link between two nodes makes in one interval. -/
def estimate (s : Simulation α) (e : Edge) : Nat :=
  if 0 < s.placement.linkDemand e then s.intervalBytes (s.placement.linkDemand e) else 0

/-- Counts the demand on one link. -/
def feedLink (s : Simulation α) (m : Monitor α) (link : Link α) : Monitor α :=
  let demand := s.placement.linkDemand link.edge
  if 0 < demand then (m.recordLink s.placement.book link.edge (s.intervalBytes demand)).2 else m

theorem feedEstimate_eq (s : Simulation α) :
    s.feedEstimate = { s with monitor := s.placement.topology.links.foldl s.feedLink s.monitor } :=
  rfl

theorem shows_feedLink {m : Monitor α} (hm : m.Shows t s.placement.book fun e =>
      min wordMax (count e)) (hbook : s.placement.book.Issued t) {link : Link α}
    (hdeclared : t.Declares link.edge) :
    (s.feedLink m link).Shows t s.placement.book fun e =>
      min wordMax (count e + if link.edge = e then s.estimate e else 0) := by
  unfold feedLink
  dsimp only
  split
  · next hdemand =>
      refine (hm.recordLink hbook link.edge _).congr fun e => ?_
      rw [Topology.metered_of_declares hdeclared]
      split
      · next heq =>
          subst heq
          rw [estimate, if_pos hdemand]
          omega
      · rfl
  · next hdemand =>
      refine hm.congr fun e => ?_
      split
      · next heq =>
          subst heq
          rw [estimate, if_neg hdemand, Nat.add_zero]
      · rfl

/-- The demand between two nodes is counted once for every link that was declared with these
ends. -/
theorem shows_feedLinks {m : Monitor α} (hm : m.Shows t s.placement.book fun e =>
      min wordMax (count e)) (hbook : s.placement.book.Issued t) {links : List (Link α)}
    (hdeclared : ∀ link ∈ links, t.Declares link.edge) :
    Monitor.Shows (links.foldl s.feedLink m) t s.placement.book fun e =>
      min wordMax (count e + links.countP (·.edge = e) * s.estimate e) := by
  induction links generalizing m count with
  | nil => exact hm.congr fun e => by simp
  | cons link rest ih =>
      have hlink := shows_feedLink hm hbook (hdeclared link List.mem_cons_self)
      refine (ih hlink fun other hother => hdeclared other (List.mem_cons_of_mem _ hother)).congr
        fun e => ?_
      rw [List.countP_cons, Nat.add_mul, Nat.add_assoc, Nat.add_comm (_ * s.estimate e)]
      by_cases heq : link.edge = e <;> simp [heq]

/-- With traffic that is estimated the counts of an interval are complete once the demand has been
counted. -/
theorem shows_measured (h : s.monitor.Shows t s.placement.book fun e => min wordMax (count e))
    (hbook : s.placement.book.Issued t) (hlinks : s.placement.topology.links = t.links)
    (htraffic : s.settings.traffic = .estimated) :
    s.measured.monitor.Shows t s.placement.book fun e =>
      min wordMax (count e + t.multiplicity e * s.estimate e) := by
  rw [measured, if_pos htraffic, feedEstimate_eq, hlinks]
  exact shows_feedLinks h hbook fun link hmem => ⟨link, hmem, rfl⟩

end Simulation

end StreamPlacement
