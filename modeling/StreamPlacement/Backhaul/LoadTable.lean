import StreamPlacement.Arithmetic.Quantity
import StreamPlacement.Ident

/-!
Demand booked per directed edge: a square table over ordered pairs of nodes. The two directions of a
link are separate cells. A pair outside the table holds nothing and cannot be changed.
-/

namespace StreamPlacement

/-- A quantity for every ordered pair of the nodes below `size`, row by row. -/
structure LoadTable (α : Type) where
  size : Nat
  cells : Array α
  cells_size : cells.size = size * size

namespace LoadTable

variable {α : Type}

/-- The position of a pair in the table. -/
def slot (size : Nat) (e : Edge) : Nat := e.1.index * size + e.2.index

/-- Whether both nodes of a pair have a row. -/
def Inside (size : Nat) (e : Edge) : Prop := e.1.index < size ∧ e.2.index < size

instance (size : Nat) (e : Edge) : Decidable (Inside size e) := inferInstanceAs (Decidable (_ ∧ _))

theorem slot_lt {size : Nat} {e : Edge} (h : Inside size e) : slot size e < size * size := by
  have h1 : e.1.index * size + size ≤ size * size := by
    rw [← Nat.succ_mul]
    exact Nat.mul_le_mul_right size h.1
  have h2 := h.2
  unfold slot
  omega

/-- Different pairs have different positions. -/
theorem slot_inj {size : Nat} {a b : Edge} (ha : Inside size a) (hb : Inside size b)
    (h : slot size a = slot size b) : a = b := by
  have hsize : 0 < size := Nat.lt_of_le_of_lt (Nat.zero_le _) ha.2
  have hdiv (e : Edge) (he : Inside size e) : slot size e / size = e.1.index := by
    rw [slot, Nat.add_comm, Nat.add_mul_div_right _ _ hsize, Nat.div_eq_of_lt he.2, Nat.zero_add]
  have hmod (e : Edge) (he : Inside size e) : slot size e % size = e.2.index := by
    rw [slot, Nat.add_comm, Nat.add_mul_mod_self_right, Nat.mod_eq_of_lt he.2]
  have h1 : a.1.index = b.1.index := by rw [← hdiv a ha, ← hdiv b hb, h]
  have h2 : a.2.index = b.2.index := by rw [← hmod a ha, ← hmod b hb, h]
  obtain ⟨⟨a1⟩, ⟨a2⟩⟩ := a
  obtain ⟨⟨b1⟩, ⟨b2⟩⟩ := b
  simp_all

/-- The table over `size` nodes that holds zero everywhere. -/
def zero [Quantity α] (size : Nat) : LoadTable α where
  size := size
  cells := Array.replicate (size * size) 0
  cells_size := Array.size_replicate

/-- What a pair holds. -/
def get [Quantity α] (table : LoadTable α) (e : Edge) : α :=
  if h : Inside table.size e then
    have hslot : slot table.size e < table.cells.size := by
      rw [table.cells_size]
      exact slot_lt h
    table.cells[slot table.size e]
  else 0

/-- Changes what a pair holds. -/
def modify (table : LoadTable α) (e : Edge) (change : α → α) : LoadTable α where
  size := table.size
  cells := if Inside table.size e then table.cells.modify (slot table.size e) change
    else table.cells
  cells_size := by split <;> simp [table.cells_size]

@[simp] theorem size_zero [Quantity α] (size : Nat) : (zero size : LoadTable α).size = size := rfl

@[simp] theorem size_modify (table : LoadTable α) (e : Edge) (change : α → α) :
    (table.modify e change).size = table.size := rfl

@[simp] theorem get_zero [Quantity α] (size : Nat) (e : Edge) :
    (zero size : LoadTable α).get e = 0 := by
  unfold get
  split <;> simp [zero]

/-- A change is seen at its own pair and nowhere else. -/
theorem get_modify [Quantity α] (table : LoadTable α) (e e' : Edge) (change : α → α) :
    (table.modify e change).get e' =
      if e = e' ∧ Inside table.size e' then change (table.get e') else table.get e' := by
  unfold get modify
  by_cases h' : Inside table.size e'
  · by_cases h : Inside table.size e
    · by_cases he : e = e'
      · subst he
        simp [h, Array.getElem_modify]
      · have hslot : slot table.size e ≠ slot table.size e' := fun hs => he (slot_inj h h' hs)
        simp [h, h', he, hslot, Array.getElem_modify]
    · have he : e ≠ e' := fun he => h (he ▸ h')
      simp [h, h', he]
  · simp [h']

/-- All pairs with what they hold, row by row. -/
def entries [Quantity α] (table : LoadTable α) : List (Edge × α) :=
  (List.range table.size).flatMap fun u =>
    (List.range table.size).map fun v => ((⟨u⟩, ⟨v⟩), table.get (⟨u⟩, ⟨v⟩))

end LoadTable

end StreamPlacement
