import StreamPlacement.Proofs.Backhaul.Rows

/-!
Which numbers the nodes of a listing may have, and which number is blamed.

Nodes are numbered from zero on without gaps, in any order. To see this, the numbers are sorted and
compared with their positions. The position at which the two differ first is the least number that
is missing, or else the one *behind* the least number that is given more than once: up to there a
repeated number is in its place, and it is its successor that is pushed out of it. So the number
that the fault names can be one that is given exactly once.
-/

namespace StreamPlacement.Listing

/-! ### Gaps -/

section Gaps

variable {sorted numbers : List Nat}

/-- A list is without a gap if it is that of its positions. -/
theorem firstGap?_eq_none_iff : firstGap? sorted = none ↔ sorted = List.range sorted.length := by
  rw [firstGap?, Option.map_eq_none_iff, List.find?_eq_none]
  constructor
  · intro h
    refine List.ext_getElem (by simp) fun k hk _ => ?_
    have hmem : (sorted[k], k) ∈ sorted.zipIdx := by simp [List.mem_zipIdx_iff_getElem?, hk]
    simpa using h _ hmem
  · intro h entry hentry
    rw [List.mem_zipIdx_iff_getElem?, h, List.getElem?_eq_some_iff] at hentry
    obtain ⟨hk, hnumber⟩ := hentry
    simpa using hnumber.symm

/-- In front of the first gap every number is at its position, and the one behind it is not. -/
theorem firstGap?_eq_some {position : Nat} (h : firstGap? sorted = some position) :
    ∃ number rest, sorted = List.range position ++ number :: rest ∧ number ≠ position := by
  obtain ⟨⟨number, _⟩, hfound, rfl⟩ := Option.map_eq_some_iff.mp h
  obtain ⟨hdiffers, k, hk, hentry, hbefore⟩ := List.find?_eq_some_iff_getElem.mp hfound
  simp only [List.getElem_zipIdx, Nat.zero_add, Prod.mk.injEq] at hentry
  obtain ⟨rfl, rfl⟩ := hentry
  have hlt : k < sorted.length := by simpa using hk
  have htake : sorted.take k = List.range k := by
    refine List.ext_getElem (by simp; omega) fun j hj _ => ?_
    have hjk : j < k := by simp at hj; omega
    simpa using hbefore j hjk
  refine ⟨sorted[k], sorted.drop (k + 1), ?_, by simpa using hdiffers⟩
  rw [← htake, List.getElem_cons_drop, List.take_append_drop]

/-- A number is missing, or it is given more than once. -/
def Astray (numbers : List Nat) (k : Nat) : Prop := numbers.count k = 0 ∨ 2 ≤ numbers.count k

instance (numbers : List Nat) (k : Nat) : Decidable (Astray numbers k) :=
  inferInstanceAs (Decidable (_ ∨ _))

/-- The least number that is missing or given more than once. -/
structure FirstAstray (numbers : List Nat) (least : Nat) : Prop where
  astray : Astray numbers least
  before : ∀ k < least, ¬ Astray numbers k

/-- The number that is blamed where `least` is the first astray: itself if it is missing, and its
successor if it is given more than once. -/
def blamed (numbers : List Nat) (least : Nat) : Nat :=
  if numbers.count least = 0 then least else least + 1

theorem FirstAstray.unique {least least' : Nat} (h : FirstAstray numbers least)
    (h' : FirstAstray numbers least') : least = least' := by
  apply Nat.le_antisymm
  · exact Nat.not_lt.mp fun hlt => h.before _ hlt h'.astray
  · exact Nat.not_lt.mp fun hlt => h'.before _ hlt h.astray

theorem FirstAstray.perm (hperm : sorted.Perm numbers) {least : Nat}
    (h : FirstAstray sorted least) : FirstAstray numbers least := by
  obtain ⟨hastray, hbefore⟩ := h
  simp only [Astray, hperm.count_eq] at hastray hbefore
  exact ⟨hastray, hbefore⟩

/-- The first gap among sorted numbers is at the number that is blamed. -/
theorem exists_firstAstray (hsorted : sorted.Pairwise (· ≤ ·)) {position : Nat}
    (h : firstGap? sorted = some position) :
    ∃ least, FirstAstray sorted least ∧ position = blamed sorted least := by
  obtain ⟨number, rest, rfl, hne⟩ := firstGap?_eq_some h
  obtain ⟨-, hbehind, hfront⟩ := List.pairwise_append.mp hsorted
  have hrest : ∀ other ∈ number :: rest, number ≤ other := by
    intro other hother
    rcases List.mem_cons.mp hother with rfl | hother
    · exact le_rfl
    · exact (List.pairwise_cons.mp hbehind).1 other hother
  have hcount : ∀ k, (List.range position ++ number :: rest).count k =
      (if k < position then 1 else 0) + (number :: rest).count k := by
    intro k
    rw [List.count_append, List.count_range]
  have habsent : ∀ k < number, (number :: rest).count k = 0 := by
    intro k hk
    rw [List.count_eq_zero]
    intro hmem
    have := hrest k hmem
    omega
  have hself : 1 ≤ (number :: rest).count number := by simp
  rcases Nat.lt_or_gt_of_ne hne with hlt | hgt
  · -- The number is a repetition of the last one in front of the gap.
    have hlast : position - 1 ≤ number :=
      hfront (position - 1) (List.mem_range.mpr (by omega)) number List.mem_cons_self
    obtain rfl : position = number + 1 := by omega
    have htwice := hcount number
    rw [if_pos (Nat.lt_succ_self number)] at htwice
    refine ⟨number, ⟨.inr (by omega), fun k hk hastray => ?_⟩, ?_⟩
    · rw [Astray, hcount, habsent k hk, if_pos (by omega)] at hastray
      omega
    · rw [blamed, if_neg (by omega)]
  · -- Behind the gap there are only greater numbers.
    have hnone := hcount position
    rw [if_neg (Nat.lt_irrefl position), habsent position hgt] at hnone
    refine ⟨position, ⟨.inl hnone, fun k hk hastray => ?_⟩, ?_⟩
    · rw [Astray, hcount, habsent k (by omega), if_pos hk] at hastray
      omega
    · rw [blamed, if_pos hnone]

end Gaps

/-! ### Listings -/

/-- Sorted numbers have no gap if they are those from zero on, whatever their order was. -/
theorem firstGap?_sort_eq_none_iff (numbers : List Nat) :
    firstGap? (sortByKey id numbers) = none ↔ numbers.Perm (List.range numbers.length) := by
  have hperm := sortByKey_perm id numbers
  rw [firstGap?_eq_none_iff, hperm.length_eq]
  constructor
  · intro h
    exact hperm.symm.trans (.of_eq h)
  · intro h
    exact (hperm.trans h).eq_of_pairwise (fun a b _ _ => Nat.le_antisymm)
      (sortByKey_sorted id numbers) List.pairwise_le_range

/-- Where every row spells a node, the nodes are accepted just if their numbers are those from zero
on, and then listed in the order of the rows. Otherwise the fault names the least number that is
missing or given more than once if it is missing, and the number behind it if it is given more than
once. So what the fault says of the number it names is true unless the least number astray is given
more than once and the one behind it exactly once. -/
theorem numbering_of_rows (file : String) {text : List Char} {nodes : List Node}
    (h : List.Forall₂ (fun row node => readNode row.2 = .ok node) (rows text) nodes) :
    (∀ listed, Listing.nodes file text = .ok listed ↔
      listed = nodes ∧ (numbers nodes).Perm (List.range nodes.length)) ∧
    (¬ (numbers nodes).Perm (List.range nodes.length) →
      ∃ least, FirstAstray (numbers nodes) least ∧
        ∃ named, named = blamed (numbers nodes) least ∧
          Listing.nodes file text = .error (.topology (.sparseIds file named)) ∧
          (Fault.topology (.sparseIds file named)).message =
            "Invalid topology: " ++ ("node ids in '" ++ file ++ "' must be dense from 0, id "
              ++ Nat.repr named ++ " is missing or duplicated") ∧
          (Astray (numbers nodes) named ↔
            (numbers nodes).count least = 0 ∨ Astray (numbers nodes) (least + 1))) := by
  have hlength : (numbers nodes).length = nodes.length := List.length_map ..
  have hnone := firstGap?_sort_eq_none_iff (numbers nodes)
  rw [hlength] at hnone
  have hread : Listing.nodes file text = refuseGaps file nodes := by
    rw [nodes_eq, readRows_eq_ok_iff.mpr h]
    rfl
  unfold refuseGaps at hread
  rw [hread, ← hnone]
  cases hgap : firstGap? (sortByKey id (numbers nodes)) with
  | none =>
      refine ⟨fun listed => ?_, fun hdense => absurd rfl hdense⟩
      simp [eq_comm]
  | some position =>
      refine ⟨fun listed => by simp, fun _ => ?_⟩
      have hperm := sortByKey_perm id (numbers nodes)
      obtain ⟨least, hleast, hposition⟩ := exists_firstAstray (sortByKey_sorted id _) hgap
      rw [blamed, hperm.count_eq] at hposition
      refine ⟨least, hleast.perm hperm, position, hposition, rfl, rfl, ?_⟩
      have hastray := (hleast.perm hperm).astray
      subst hposition
      by_cases hmissing : (numbers nodes).count least = 0
      · simp [hmissing, hastray]
      · simp [hmissing]

/-- Numbers in any order are accepted if none of them is astray, and a number that is missing is
named. -/
theorem numbering_of_shuffled_rows :
    (∃ nodes, Listing.nodes "nodes" "id kind\n1 ap\n0 server".toList = .ok nodes ∧
      numbers nodes = [1, 0]) ∧
    Listing.nodes "nodes" "3 ap\n0 server\n1 router".toList =
      .error (.topology (.sparseIds "nodes" 2)) := by
  have hdense : List.Forall₂ (fun row node => readNode row.2 = .ok node)
      (rows "id kind\n1 ap\n0 server".toList)
      [{ id := ⟨1⟩, kind := .accessPoint }, { id := ⟨0⟩, kind := .cacheServer }] := by
    decide +kernel
  have hsparse : List.Forall₂ (fun row node => readNode row.2 = .ok node)
      (rows "3 ap\n0 server\n1 router".toList)
      [{ id := ⟨3⟩, kind := .accessPoint }, { id := ⟨0⟩, kind := .cacheServer },
        { id := ⟨1⟩, kind := .router }] := by
    decide +kernel
  obtain ⟨haccepted, -⟩ := numbering_of_rows "nodes" hdense
  obtain ⟨-, hrefused⟩ := numbering_of_rows "nodes" hsparse
  refine ⟨⟨_, (haccepted _).mpr ⟨rfl, by decide⟩, rfl⟩, ?_⟩
  obtain ⟨least, hleast, named, hnamed, hfault, -⟩ := hrefused (by decide)
  obtain rfl : least = 2 := hleast.unique ⟨by decide, by decide⟩
  rw [hfault, hnamed]
  rfl

/-- Where a number is given twice, its successor is named although it is given exactly once. -/
theorem successor_blamed :
    ∃ nodes, List.Forall₂ (fun row node => readNode row.2 = .ok node)
        (rows "0 server\n0 ap\n1 router".toList) nodes ∧
      Listing.nodes "nodes" "0 server\n0 ap\n1 router".toList =
        .error (.topology (.sparseIds "nodes" 1)) ∧
      (numbers nodes).count 1 = 1 :=
  ⟨[{ id := ⟨0⟩, kind := .cacheServer }, { id := ⟨0⟩, kind := .accessPoint },
    { id := ⟨1⟩, kind := .router }], by decide +kernel, by decide +kernel, rfl⟩

end StreamPlacement.Listing
