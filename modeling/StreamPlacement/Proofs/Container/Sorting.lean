import StreamPlacement.Container.Sorting

/-!
What stable sorting keeps.

It keeps the order of equal keys, whatever that order means; it does not matter whether elements are
left out before or behind it; and it looks at nothing but the keys.
-/

namespace StreamPlacement

variable {α β : Type} {key : α → Nat} {R : α → α → Prop} {xs : List α}

theorem pairwise_insertByKey {x : α} (hx : ∀ y ∈ xs, R x y)
    (h : xs.Pairwise fun a b => key a < key b ∨ key a = key b ∧ R a b) :
    (insertByKey key x xs).Pairwise fun a b => key a < key b ∨ key a = key b ∧ R a b := by
  induction xs with
  | nil => exact List.pairwise_singleton _ _
  | cons y rest ih =>
      obtain ⟨hy, hrest⟩ := List.pairwise_cons.mp h
      obtain ⟨hxy, hxrest⟩ := List.forall_mem_cons.mp hx
      unfold insertByKey
      split
      · next hle =>
          refine List.pairwise_cons.mpr ⟨fun b hb => ?_, h⟩
          have hxb : key x ≤ key b := by
            rcases List.mem_cons.mp hb with rfl | hb
            · exact hle
            · rcases hy b hb with hlt | ⟨heq, -⟩ <;> omega
          exact (Nat.lt_or_eq_of_le hxb).imp_right fun heq => ⟨heq, hx b hb⟩
      · next hgt =>
          refine List.pairwise_cons.mpr ⟨fun b hb => ?_, ih hxrest hrest⟩
          rcases List.mem_cons.mp ((insertByKey_perm key x rest).mem_iff.mp hb) with rfl | hb
          · exact .inl (by omega)
          · exact hy b hb

/-- What holds of any two elements in their order holds of equal keys behind sorting. -/
theorem pairwise_sortByKey (key : α → Nat) (h : xs.Pairwise R) :
    (sortByKey key xs).Pairwise fun a b => key a < key b ∨ key a = key b ∧ R a b := by
  induction xs with
  | nil => exact .nil
  | cons x rest ih =>
      obtain ⟨hx, hrest⟩ := List.pairwise_cons.mp h
      refine pairwise_insertByKey (fun y hy => hx y ?_) (ih hrest)
      exact (sortByKey_perm key rest).mem_iff.mp hy

theorem insertByKey_of_le {x : α} (h : ∀ y ∈ xs, key x ≤ key y) :
    insertByKey key x xs = x :: xs := by
  cases xs with
  | nil => rfl
  | cons y rest => exact if_pos (h y List.mem_cons_self)

theorem insertByKey_filter {x : α} (keep : α → Bool)
    (h : xs.Pairwise fun a b => key a ≤ key b) :
    (insertByKey key x xs).filter keep =
      if keep x then insertByKey key x (xs.filter keep) else xs.filter keep := by
  induction xs with
  | nil =>
      cases hx : keep x with
      | false => exact List.filter_cons_of_neg (by simp [hx])
      | true => exact List.filter_cons_of_pos hx
  | cons y rest ih =>
      obtain ⟨hy, hrest⟩ := List.pairwise_cons.mp h
      rw [insertByKey]
      split
      · next hle =>
          have hall : ∀ z ∈ (y :: rest).filter keep, key x ≤ key z := by
            intro z hz
            rcases List.mem_cons.mp (List.mem_filter.mp hz).1 with rfl | hz
            · exact hle
            · exact Nat.le_trans hle (hy z hz)
          rw [List.filter_cons (x := x)]
          split
          · exact (insertByKey_of_le hall).symm
          · rfl
      · next hgt =>
          rw [List.filter_cons, List.filter_cons, ih hrest]
          cases keep y with
          | false => rfl
          | true =>
              cases keep x with
              | false => rfl
              | true => exact (if_neg hgt).symm

/-- Elements may be left out before or behind sorting. -/
theorem sortByKey_filter (keep : α → Bool) :
    (sortByKey key xs).filter keep = sortByKey key (xs.filter keep) := by
  induction xs with
  | nil => rfl
  | cons x rest ih =>
      rw [sortByKey, insertByKey_filter keep (sortByKey_sorted key rest), ih, List.filter_cons]
      cases keep x <;> rfl

theorem map_insertByKey {key' : β → Nat} {f : α → β} (hkey : ∀ x, key' (f x) = key x) (x : α)
    (xs : List α) :
    (insertByKey key x xs).map f = insertByKey key' (f x) (xs.map f) := by
  induction xs with
  | nil => rfl
  | cons y rest ih =>
      rw [List.map_cons, insertByKey, insertByKey, hkey, hkey, ← ih]
      split <;> rfl

/-- Nothing but the keys decides where an element goes. -/
theorem map_sortByKey (key : α → Nat) (key' : β → Nat) (f : α → β)
    (hkey : ∀ x, key' (f x) = key x) (xs : List α) :
    (sortByKey key xs).map f = sortByKey key' (xs.map f) := by
  induction xs with
  | nil => rfl
  | cons x rest ih => rw [sortByKey, map_insertByKey hkey, ih, List.map_cons, sortByKey]

end StreamPlacement
