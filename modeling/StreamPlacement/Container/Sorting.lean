/-!
Stable sorting by a numeric key, by structural recursion so that closed examples evaluate.
-/

namespace StreamPlacement

variable {α : Type}

/-- Puts `x` in front of the first element whose key is not smaller. -/
def insertByKey (key : α → Nat) (x : α) : List α → List α
  | [] => [x]
  | y :: rest => if key x ≤ key y then x :: y :: rest else y :: insertByKey key x rest

/-- The elements in ascending order of their keys; equal keys keep the order they came in. -/
def sortByKey (key : α → Nat) : List α → List α
  | [] => []
  | x :: rest => insertByKey key x (sortByKey key rest)

theorem insertByKey_perm (key : α → Nat) (x : α) (xs : List α) :
    (insertByKey key x xs).Perm (x :: xs) := by
  induction xs with
  | nil => exact .refl _
  | cons y rest ih =>
    unfold insertByKey
    split
    · exact .refl _
    · exact (ih.cons y).trans (.swap x y rest)

/-- Sorting loses nothing and invents nothing. -/
theorem sortByKey_perm (key : α → Nat) (xs : List α) : (sortByKey key xs).Perm xs := by
  induction xs with
  | nil => exact .refl _
  | cons x rest ih => exact (insertByKey_perm key x _).trans (ih.cons x)

theorem insertByKey_sorted (key : α → Nat) (x : α) (xs : List α)
    (h : xs.Pairwise fun a b => key a ≤ key b) :
    (insertByKey key x xs).Pairwise fun a b => key a ≤ key b := by
  induction xs with
  | nil => simp [insertByKey]
  | cons y rest ih =>
    have hy := (List.pairwise_cons.1 h).1
    unfold insertByKey
    split
    · next hle =>
      refine List.pairwise_cons.2 ⟨fun b hb => ?_, h⟩
      rcases List.mem_cons.1 hb with rfl | hb
      · exact hle
      · exact Nat.le_trans hle (hy b hb)
    · next hlt =>
      refine List.pairwise_cons.2 ⟨fun b hb => ?_, ih (List.pairwise_cons.1 h).2⟩
      rcases List.mem_cons.1 ((insertByKey_perm key x rest).mem_iff.1 hb) with rfl | hb
      · omega
      · exact hy b hb

/-- The result is in ascending order. -/
theorem sortByKey_sorted (key : α → Nat) (xs : List α) :
    (sortByKey key xs).Pairwise fun a b => key a ≤ key b := by
  induction xs with
  | nil => exact .nil
  | cons x rest ih => exact insertByKey_sorted key x _ ih

theorem filter_insertByKey (key : α → Nat) (k : Nat) (x : α) (xs : List α) :
    (insertByKey key x xs).filter (key · = k) = (x :: xs).filter (key · = k) := by
  induction xs with
  | nil => rfl
  | cons y rest ih =>
    unfold insertByKey
    split
    · rfl
    · next hlt =>
      rw [List.filter_cons, ih]
      by_cases hx : key x = k
      · have hy : key y ≠ k := by omega
        simp [hx, hy]
      · simp [hx, List.filter_cons]

/-- Elements of one key keep the order they came in. -/
theorem filter_sortByKey (key : α → Nat) (k : Nat) (xs : List α) :
    (sortByKey key xs).filter (key · = k) = xs.filter (key · = k) := by
  induction xs with
  | nil => rfl
  | cons x rest ih => rw [sortByKey, filter_insertByKey, List.filter_cons, List.filter_cons, ih]

end StreamPlacement
