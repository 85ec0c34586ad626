import Mathlib.Data.List.Induction
import Mathlib.Data.List.Nodup
import Mathlib.Tactic.Tauto
import StreamPlacement.Container.OrderedMap

/-!
Reading an ordered map that was written to. A value is found under the key it was put under and
every other key keeps its own; with these equations nothing below looks at the entries again.
-/

namespace StreamPlacement.OrderedMap

variable {κ ν : Type}

theorem lookup_cons_ite [DecidableEq κ] (key key' : κ) (value : ν) (entries : List (κ × ν)) :
    ((key, value) :: entries).lookup key' =
      if key' = key then some value else entries.lookup key' := by
  rw [List.lookup_cons]
  by_cases h : key' = key
  · simp [h]
  · rw [beq_eq_false_iff_ne.mpr h, if_neg h]

variable [Ord κ]

section Lookup

variable [DecidableEq κ]

/-- The keys are those under which something is found. -/
theorem mem_keys_iff {map : OrderedMap κ ν} {key : κ} :
    key ∈ map.keys ↔ ∃ value, map.get? key = some value := by
  unfold keys get?
  induction map.entries with
  | nil => simp
  | cons entry rest ih =>
      obtain ⟨k, v⟩ := entry
      rw [List.map_cons, List.mem_cons, ih, lookup_cons_ite]
      by_cases h : key = k <;> simp [h]

@[simp] theorem get?_empty (key : κ) : (∅ : OrderedMap κ ν).get? key = none := rfl

theorem get?_map {ν' : Type} (map : OrderedMap κ ν) (change : κ → ν → ν') (key : κ) :
    (map.map change).get? key = (map.get? key).map (change key) := by
  show (map.entries.map fun entry => (entry.1, change entry.1 entry.2)).lookup key =
    (map.entries.lookup key).map (change key)
  induction map.entries with
  | nil => rfl
  | cons entry rest ih =>
      obtain ⟨k, v⟩ := entry
      rw [List.map_cons, lookup_cons_ite, lookup_cons_ite, ih]
      by_cases h : key = k <;> simp [h]

theorem get?_modify (map : OrderedMap κ ν) (key key' : κ) (change : ν → ν) :
    (map.modify key change).get? key' =
      if key' = key then (map.get? key').map change else map.get? key' := by
  rw [modify, get?_map]
  split <;> simp

end Lookup

variable [Std.LawfulEqOrd κ]

theorem compare_self_ne_lt (key : κ) : compare key key ≠ .lt := by
  have hself : compare key key = .eq := Std.ReflCmp.compare_self
  rw [hself]
  exact Ordering.noConfusion

theorem keys_nodup (map : OrderedMap κ ν) : map.keys.Nodup := by
  refine List.pairwise_map.mpr (map.ascending.imp fun {a b} hlt heq => ?_)
  rw [heq] at hlt
  exact compare_self_ne_lt b.1 hlt

variable [DecidableEq κ]

theorem mem_entries_iff {map : OrderedMap κ ν} {key : κ} {value : ν} :
    (key, value) ∈ map.entries ↔ map.get? key = some value := by
  obtain ⟨entries, hascending⟩ := map
  show (key, value) ∈ entries ↔ entries.lookup key = some value
  induction entries with
  | nil => simp
  | cons entry rest ih =>
      obtain ⟨k, v⟩ := entry
      obtain ⟨hfirst, hrest⟩ := List.pairwise_cons.mp hascending
      rw [List.mem_cons, lookup_cons_ite]
      by_cases h : key = k
      · subst h
        -- The key does not come again.
        have hnot : (key, value) ∉ rest := fun hmem =>
          compare_self_ne_lt key (hfirst _ hmem)
        simp [hnot, eq_comm]
      · rw [if_neg h, ← ih hrest]
        simp [h]

theorem lookup_insertEntry (key key' : κ) (value : ν) (entries : List (κ × ν)) :
    (insertEntry key value entries).lookup key' =
      if key' = key then some value else entries.lookup key' := by
  induction entries with
  | nil => exact lookup_cons_ite key key' value []
  | cons entry rest ih =>
      obtain ⟨k, v⟩ := entry
      unfold insertEntry
      split
      · exact lookup_cons_ite key key' value _
      · next heq =>
          obtain rfl : key = k := Std.LawfulEqCmp.eq_of_compare heq
          rw [lookup_cons_ite, lookup_cons_ite]
          split <;> rfl
      · next hgt =>
          have hne : k ≠ key := by
            rintro rfl
            have hself : compare k k = .eq := Std.ReflCmp.compare_self
            rw [hself] at hgt
            cases hgt
          rw [lookup_cons_ite, lookup_cons_ite, ih]
          by_cases h : key' = k
          · simp [h, hne]
          · simp [h]

variable [Std.TransOrd κ]

/-- A map is determined by what is found in it. -/
theorem eq_of_get?_eq {a b : OrderedMap κ ν} (h : ∀ key, a.get? key = b.get? key) : a = b := by
  have hnodup : ∀ map : OrderedMap κ ν, map.entries.Nodup := fun map =>
    List.Nodup.of_map Prod.fst map.keys_nodup
  have hperm : a.entries.Perm b.entries := by
    refine (List.perm_ext_iff_of_nodup (hnodup a) (hnodup b)).mpr fun entry => ?_
    rw [mem_entries_iff, mem_entries_iff, h]
  refine OrderedMap.ext (hperm.eq_of_pairwise (fun x y _ _ hxy hyx => ?_) a.ascending b.ascending)
  exact absurd (Std.TransCmp.lt_trans hxy hyx) (compare_self_ne_lt x.1)

theorem get?_insert (map : OrderedMap κ ν) (key key' : κ) (value : ν) :
    (map.insert key value).get? key' = if key' = key then some value else map.get? key' :=
  lookup_insertEntry key key' value map.entries

@[simp] theorem get?_insert_self (map : OrderedMap κ ν) (key : κ) (value : ν) :
    (map.insert key value).get? key = some value := by
  rw [get?_insert, if_pos rfl]

theorem get?_insert_of_ne (map : OrderedMap κ ν) {key key' : κ} (value : ν) (h : key' ≠ key) :
    (map.insert key value).get? key' = map.get? key' := by
  rw [get?_insert, if_neg h]

theorem contains_insert (map : OrderedMap κ ν) (key key' : κ) (value : ν) :
    (map.insert key value).contains key' = (decide (key' = key) || map.contains key') := by
  rw [contains, get?_insert, contains]
  by_cases h : key' = key <;> simp [h]

omit [DecidableEq κ] in
theorem size_insert_le (map : OrderedMap κ ν) (key : κ) (value : ν) :
    (map.insert key value).size ≤ map.size + 1 := by
  show (insertEntry key value map.entries).length ≤ map.entries.length + 1
  induction map.entries with
  | nil => exact Nat.le_refl _
  | cons entry rest ih =>
      unfold insertEntry
      split <;> simp only [List.length_cons] <;> omega

theorem mem_keys_insert {map : OrderedMap κ ν} {key key' : κ} {value : ν} :
    key' ∈ (map.insert key value).keys ↔ key' = key ∨ key' ∈ map.keys := by
  simp only [mem_keys_iff, get?_insert]
  by_cases h : key' = key <;> simp [h]

omit [DecidableEq κ] in
theorem ofList_concat (pairs : List (κ × ν)) (key : κ) (value : ν) :
    ofList (pairs ++ [(key, value)]) = (ofList pairs).insert key value := List.foldl_concat ..

/-- What is found was put. -/
theorem mem_of_get?_ofList {pairs : List (κ × ν)} {key : κ} {value : ν}
    (h : (ofList pairs).get? key = some value) : (key, value) ∈ pairs := by
  induction pairs using List.reverseRecOn with
  | nil => cases h
  | append_singleton pairs pair ih =>
      rw [ofList_concat, get?_insert] at h
      split at h
      · next heq =>
          obtain rfl := Option.some.inj h
          exact List.mem_append_right _ (List.mem_singleton.mpr (by rw [heq]))
      · exact List.mem_append_left _ (ih h)

theorem mem_keys_ofList {pairs : List (κ × ν)} {key : κ} :
    key ∈ (ofList pairs).keys ↔ key ∈ pairs.map Prod.fst := by
  have hfold : ∀ map : OrderedMap κ ν,
      key ∈ (pairs.foldl (fun map pair => map.insert pair.1 pair.2) map).keys ↔
        key ∈ map.keys ∨ key ∈ pairs.map Prod.fst := by
    induction pairs with
    | nil => simp
    | cons pair rest ih =>
        intro map
        rw [List.foldl_cons, ih, mem_keys_insert, List.map_cons, List.mem_cons]
        tauto
  rw [ofList, hfold]
  simp [keys]

end StreamPlacement.OrderedMap
