import Mathlib.Data.List.Pairwise
import StreamPlacement.Container.Pairing

/-!
Either side of a one-to-one pairing determines the other. Joining keeps a pairing one-to-one, since
a pair is taken up only while both of its sides are free.
-/

namespace StreamPlacement.Pairing

variable {α β : Type}

/-- No side occurs in two pairs. -/
def OneToOne (p : Pairing α β) : Prop := p.pairs.Pairwise fun x y => x.1 ≠ y.1 ∧ x.2 ≠ y.2

theorem oneToOne_empty : ({} : Pairing α β).OneToOne := .nil

variable [DecidableEq α] [DecidableEq β]

theorem OneToOne.join {p : Pairing α β} (h : p.OneToOne) (a : α) (b : β) :
    (p.join a b).OneToOne := by
  unfold Pairing.join
  split
  · exact h
  · next hfree =>
      simp only [List.any_eq_true, decide_eq_true_eq, not_exists, not_and, not_or] at hfree
      refine List.pairwise_append.mpr ⟨h, List.pairwise_singleton _ _, fun x hx y hy => ?_⟩
      obtain rfl := List.mem_singleton.mp hy
      exact hfree x hx

omit [DecidableEq β] in
theorem mem_of_right? {p : Pairing α β} {a : α} {b : β} (h : p.right? a = some b) :
    (a, b) ∈ p.pairs := by
  obtain ⟨⟨a', b'⟩, hfind, rfl⟩ := Option.map_eq_some_iff.mp h
  have ha : a' = a := by simpa using List.find?_some hfind
  exact ha ▸ List.mem_of_find?_eq_some hfind

omit [DecidableEq α] in
theorem OneToOne.left?_of_mem {p : Pairing α β} (h : p.OneToOne) {a : α} {b : β}
    (hmem : (a, b) ∈ p.pairs) : p.left? b = some a := by
  obtain ⟨pairs⟩ := p
  unfold left?
  simp only [OneToOne] at h hmem ⊢
  induction pairs with
  | nil => cases hmem
  | cons pair rest ih =>
      obtain ⟨hpair, hrest⟩ := List.pairwise_cons.mp h
      rcases List.mem_cons.mp hmem with rfl | hmem
      · simp
      · have hne : pair.2 ≠ b := (hpair _ hmem).2
        simpa [List.find?_cons, hne] using ih hrest hmem

/-! ### What a join adds -/

/-- A pair is taken up if both of its sides are free. -/
theorem mem_join_iff {p : Pairing α β} {a : α} {b : β} {pair : α × β} :
    pair ∈ (p.join a b).pairs ↔
      pair ∈ p.pairs ∨ (pair = (a, b) ∧ ∀ other ∈ p.pairs, other.1 ≠ a ∧ other.2 ≠ b) := by
  unfold Pairing.join
  split
  · next htaken =>
      simp only [List.any_eq_true, decide_eq_true_eq] at htaken
      obtain ⟨other, hmem, hother⟩ := htaken
      refine (or_iff_left ?_).symm
      rintro ⟨-, hfree⟩
      exact hother.elim (hfree other hmem).1 (hfree other hmem).2
  · next hfree =>
      simp only [List.any_eq_true, decide_eq_true_eq, not_exists, not_and, not_or] at hfree
      rw [List.mem_append, List.mem_singleton, and_iff_left hfree]

theorem mem_join {p : Pairing α β} {a : α} {b : β} {pair : α × β}
    (h : pair ∈ (p.join a b).pairs) : pair ∈ p.pairs ∨ pair = (a, b) :=
  (mem_join_iff.mp h).imp_right And.left

omit [DecidableEq β] in
theorem isSome_right?_iff {p : Pairing α β} {a : α} :
    (p.right? a).isSome ↔ ∃ pair ∈ p.pairs, pair.1 = a := by
  simp [right?]

theorem isSome_right?_join {p : Pairing α β} {a' : α} (h : (p.right? a').isSome) (a : α) (b : β) :
    ((p.join a b).right? a').isSome := by
  obtain ⟨pair, hmem, hpair⟩ := isSome_right?_iff.mp h
  refine isSome_right?_iff.mpr ⟨pair, ?_, hpair⟩
  unfold Pairing.join
  split
  · exact hmem
  · exact List.mem_append_left _ hmem

/-- A free right side is enough for the left side to have a partner afterwards. -/
theorem isSome_right?_join_self {p : Pairing α β} {b : β} (hfree : ∀ pair ∈ p.pairs, pair.2 ≠ b)
    (a : α) : ((p.join a b).right? a).isSome := by
  refine isSome_right?_iff.mpr ?_
  unfold Pairing.join
  split
  · next htaken =>
      simp only [List.any_eq_true, decide_eq_true_eq] at htaken
      obtain ⟨pair, hmem, hpair⟩ := htaken
      exact ⟨pair, hmem, hpair.resolve_right (hfree pair hmem)⟩
  · exact ⟨(a, b), List.mem_append_right _ (List.mem_singleton.mpr rfl), rfl⟩

/-! ### There and back -/

/-- Whoever is found from the left is found back from the right. -/
theorem OneToOne.left?_of_right? {p : Pairing α β} (h : p.OneToOne) {a : α} {b : β}
    (hab : p.right? a = some b) : p.left? b = some a := h.left?_of_mem (mem_of_right? hab)

/-- Whoever is found from the right is found back from the left. -/
theorem OneToOne.right?_of_left? {p : Pairing α β} (h : p.OneToOne) {a : α} {b : β}
    (hab : p.left? b = some a) : p.right? a = some b := by
  obtain ⟨⟨a', b'⟩, hfind, rfl⟩ := Option.map_eq_some_iff.mp hab
  have hmem := List.mem_of_find?_eq_some hfind
  obtain rfl : b' = b := by simpa using List.find?_some hfind
  obtain ⟨partner, hpartner⟩ :=
    Option.isSome_iff_exists.mp (isSome_right?_iff.mpr ⟨_, hmem, rfl⟩)
  -- Two pairs with one left side are one pair.
  have hsymm : Std.Symm fun x y : α × β => x.1 ≠ y.1 ∧ x.2 ≠ y.2 :=
    ⟨fun _ _ hxy => ⟨hxy.1.symm, hxy.2.symm⟩⟩
  have heq : (a', b') = (a', partner) := by
    by_contra hne
    exact (List.Pairwise.forall h hmem (mem_of_right? hpartner) hne).1 rfl
  rw [hpartner, (Prod.mk.inj heq).2]

end StreamPlacement.Pairing
