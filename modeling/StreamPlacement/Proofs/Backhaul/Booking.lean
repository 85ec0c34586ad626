import Mathlib.Algebra.Order.Ring.Rat
import Mathlib.Tactic.Linarith
import Mathlib.Tactic.Ring
import StreamPlacement.Proofs.Backhaul.RouteChoice

/-!
What booking changes in a topology.

Booking writes to the table of loads and to nothing else, so it moves no route. Over the exact
rationals it keeps accounts: what is given back is what was booked before, and the floor at zero is
never felt.
-/

namespace StreamPlacement

/-- A table is determined by what its pairs hold. -/
theorem LoadTable.eq_of_get_eq {α : Type} [Quantity α] {table table' : LoadTable α}
    (hsize : table.size = table'.size) (hget : ∀ e, table.get e = table'.get e) :
    table = table' := by
  obtain ⟨size, cells, hcells⟩ := table
  obtain ⟨size', cells', hcells'⟩ := table'
  obtain rfl : size = size' := hsize
  have hsame : cells = cells' := by
    refine Array.ext (hcells.trans hcells'.symm) fun i hi hi' => ?_
    have hlt : i < size * size := hcells ▸ hi
    have hpos : 0 < size := Nat.pos_of_mul_pos_right (Nat.zero_lt_of_lt hlt)
    let e : Edge := (⟨i / size⟩, ⟨i % size⟩)
    have hinside : Inside size e := ⟨Nat.div_lt_of_lt_mul hlt, Nat.mod_lt i hpos⟩
    have hslot : slot size e = i := Nat.div_add_mod' i size
    have hcell := hget e
    simp only [get, hinside, hslot, dite_true] at hcell
    exact hcell
  subst hsame
  rfl

namespace Topology

/-! ### What stays -/

section Frame

variable {α : Type}

/-- The topologies differ in what is booked at most. -/
structure SameNetwork (t t' : Topology α) : Prop where
  unit_eq : t.unit = t'.unit
  nodes_eq : t.nodes = t'.nodes
  links_eq : t.links = t'.links
  adjacency_eq : t.adjacency = t'.adjacency
  size_eq : t.size = t'.size

variable {t t' t'' : Topology α}

theorem SameNetwork.refl (t : Topology α) : t.SameNetwork t := ⟨rfl, rfl, rfl, rfl, rfl⟩

theorem SameNetwork.trans (h : t.SameNetwork t') (h' : t'.SameNetwork t'') : t.SameNetwork t'' :=
  ⟨h.unit_eq.trans h'.unit_eq, h.nodes_eq.trans h'.nodes_eq, h.links_eq.trans h'.links_eq,
    h.adjacency_eq.trans h'.adjacency_eq, h.size_eq.trans h'.size_eq⟩

theorem SameNetwork.symm (h : t.SameNetwork t') : t'.SameNetwork t :=
  ⟨h.unit_eq.symm, h.nodes_eq.symm, h.links_eq.symm, h.adjacency_eq.symm, h.size_eq.symm⟩

theorem SameNetwork.wired (h : t.SameNetwork t') (hwired : t'.Wired) : t.Wired := by
  refine ⟨fun u => ?_, fun link hmem => ?_⟩
  · have hneighbours := hwired.neighbours_eq u
    rw [neighbours] at hneighbours ⊢
    rw [h.adjacency_eq, h.links_eq, hneighbours]
  · rw [h.size_eq]
    exact hwired.inside link (h.links_eq ▸ hmem)

/-- Whatever is booked, the routes are the same. -/
theorem SameNetwork.route_eq (h : t.SameNetwork t') (hwired : t'.Wired) (source dest : NodeId) :
    t.route source dest = t'.route source dest :=
  route_congr (h.wired hwired) hwired h.size_eq
    (fun u v => by rw [Joined, Joined, h.links_eq]) source dest

/-- Whatever is booked, the same links are found. -/
theorem SameNetwork.link?_eq (h : t.SameNetwork t') (e : Edge) : t.link? e = t'.link? e := by
  rw [link?, link?, h.links_eq]

variable [Quantity α]

/-- What a link can carry does not depend on what is booked. -/
theorem SameNetwork.carries_eq (h : t.SameNetwork t') (e : Edge) (streams : Nat) :
    t.carries e streams = t'.carries e streams := by
  rw [carries, carries, h.link?_eq, h.unit_eq]

theorem SameNetwork.eq_of_load_eq (h : t.SameNetwork t') (hload : ∀ e, t.load e = t'.load e) :
    t = t' := by
  have hloads : t.loads = t'.loads := LoadTable.eq_of_get_eq h.size_eq hload
  obtain ⟨hunit, hnodes, hlinks, hadjacency, -⟩ := h
  cases t
  cases t'
  simp_all

theorem sameNetwork_allocate (t : Topology α) (e : Edge) : (t.allocate e).SameNetwork t :=
  ⟨rfl, rfl, rfl, rfl, rfl⟩

theorem sameNetwork_allocateMany (t : Topology α) (e : Edge) (streams : Nat) :
    (t.allocateMany e streams).SameNetwork t := by
  induction streams generalizing t with
  | zero => exact .refl t
  | succ streams ih => exact (ih (t.allocate e)).trans (sameNetwork_allocate t e)

theorem sameNetwork_release (t : Topology α) (e : Edge) (streams : Nat) :
    (t.release e streams).SameNetwork t := ⟨rfl, rfl, rfl, rfl, rfl⟩

theorem sameNetwork_reset (t : Topology α) (e : Edge) : (t.reset e).SameNetwork t :=
  ⟨rfl, rfl, rfl, rfl, rfl⟩

theorem load_reset (t : Topology α) (e e' : Edge) :
    (t.reset e).load e' = if e = e' then 0 else t.load e' := by
  have hget := LoadTable.get_modify t.loads e e' fun _ => 0
  rw [load, reset, hget]
  by_cases hinside : LoadTable.Inside t.loads.size e'
  · simp [hinside, load]
  · -- A pair outside the table holds nothing anyway.
    simp [hinside, load, LoadTable.get]

/-- After a reset nothing but the demand itself counts against a link. -/
theorem admits_reset {e : Edge} {link : Link α} (h : t.link? e = some link) (demand : α) :
    (t.reset e).admits e demand = decide (0 + demand ≤ link.rate) := by
  rw [admits, (sameNetwork_reset t e).link?_eq, h, load_reset, if_pos rfl]

/-- A change of what is booked. -/
inductive Posting
  | allocate (e : Edge)
  | release (e : Edge) (streams : Nat)
  | reset (e : Edge)

/-- Carries out a change of what is booked. -/
def post (t : Topology α) : Posting → Topology α
  | .allocate e => t.allocate e
  | .release e streams => t.release e streams
  | .reset e => t.reset e

/-- Carries out several changes one after another. -/
def postAll (t : Topology α) (postings : List Posting) : Topology α := postings.foldl post t

theorem sameNetwork_post (t : Topology α) (posting : Posting) : (t.post posting).SameNetwork t := by
  cases posting with
  | allocate e => exact sameNetwork_allocate t e
  | release e streams => exact sameNetwork_release t e streams
  | reset e => exact sameNetwork_reset t e

/-- No change of what is booked reaches the network. -/
theorem sameNetwork_postAll (t : Topology α) (postings : List Posting) :
    (t.postAll postings).SameNetwork t := by
  induction postings generalizing t with
  | nil => exact .refl t
  | cons posting postings ih => exact (ih (t.post posting)).trans (sameNetwork_post t posting)

end Frame

/-! ### Exact accounts -/

variable {t : Topology Rat} {e : Edge}

theorem load_allocate (h : LoadTable.Inside t.size e) (e' : Edge) :
    (t.allocate e).load e' = t.load e' + if e = e' then t.unit else 0 := by
  have hget := LoadTable.get_modify t.loads e e' (· + t.unit)
  rw [load, allocate, hget]
  by_cases he : e = e'
  · rw [if_pos ⟨he, he ▸ h⟩, if_pos he]
    rfl
  · rw [if_neg (fun hboth => he hboth.1), if_neg he, add_zero]
    rfl

theorem load_allocateMany (h : LoadTable.Inside t.size e) (streams : Nat) (e' : Edge) :
    (t.allocateMany e streams).load e' = t.load e' + if e = e' then t.unit * streams else 0 := by
  induction streams generalizing t with
  | zero => simp [allocateMany]
  | succ streams ih =>
      have hrest : ((t.allocate e).allocateMany e streams).load e' =
          (t.allocate e).load e' + if e = e' then t.unit * streams else 0 := ih h
      rw [allocateMany, hrest, load_allocate h]
      by_cases he : e = e'
      · simp only [if_pos he, Nat.cast_succ]
        ring
      · simp [he]

/-- What is booked can be given back without loss. -/
theorem load_release (h : LoadTable.Inside t.size e) {streams : Nat}
    (hbooked : t.unit * streams ≤ t.load e) (e' : Edge) :
    (t.release e streams).load e' = t.load e' - if e = e' then t.unit * streams else 0 := by
  have hget := LoadTable.get_modify t.loads e e' fun load =>
    Quantity.atLeastZero (load - Quantity.ofNat streams * t.unit)
  rw [load, release, hget]
  by_cases he : e = e'
  · subst he
    have hgiven : (Quantity.ofNat streams : Rat) * t.unit = t.unit * streams := mul_comm _ _
    rw [if_pos ⟨rfl, h⟩, if_pos rfl, hgiven]
    have hrest : 0 ≤ t.load e - t.unit * streams := sub_nonneg.mpr hbooked
    unfold Quantity.atLeastZero
    split
    · rfl
    · next hnot => exact le_antisymm hrest (not_lt.mp hnot)
  · rw [if_neg (fun hboth => he hboth.1), if_neg he, sub_zero]
    rfl

end Topology

end StreamPlacement
