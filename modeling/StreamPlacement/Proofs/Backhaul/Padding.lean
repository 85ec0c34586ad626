import StreamPlacement.Proofs.Backhaul.Rows

/-!
Filler between the lines of a listing.

Lines on which nothing or a comment stands may be put in front of, between and behind the lines of a
listing, before a header as well as after it. The same is read of it then, and a row that is refused
is refused for the same reason. Only the number of its line grows, by as many lines as were put in
front of it.
-/

namespace StreamPlacement.Listing

/-! ### Padding -/

/-- Puts a run of lines in front of each line; what is left of the runs goes behind the last. -/
def pad : List (List (List Char)) → List (List Char) → List (List Char)
  | [], lines => lines
  | run :: runs, [] => run ++ pad runs []
  | run :: runs, line :: lines => run ++ line :: pad runs lines

/-- The number of a line behind the runs that were put in front of it. -/
def moved (runs : List (List (List Char))) (number : Nat) : Nat :=
  number + ((runs.take number).map List.length).sum

theorem moved_nil (number : Nat) : moved [] number = number := by simp [moved]

theorem moved_cons_succ (run : List (List Char)) (runs : List (List (List Char))) (number : Nat) :
    moved (run :: runs) (number + 1) = moved runs number + (run.length + 1) := by
  simp only [moved, List.take_succ_cons, List.map_cons, List.sum_cons]
  omega

theorem le_moved (runs : List (List (List Char))) (number : Nat) : number ≤ moved runs number :=
  Nat.le_add_right ..

/-- A line that was there before is where it was moved to. -/
theorem getElem?_pad_moved {runs : List (List (List Char))} {lines : List (List Char)} {k : Nat}
    (hk : k < lines.length) : (pad runs lines)[moved runs (k + 1) - 1]? = lines[k]? := by
  induction runs generalizing lines k with
  | nil => rw [moved_nil, Nat.add_sub_cancel, pad]
  | cons run runs ih =>
      cases lines with
      | nil => simp at hk
      | cons line lines =>
          rw [moved_cons_succ, ← Nat.add_assoc, Nat.add_sub_cancel, pad,
            List.getElem?_append_right (Nat.le_add_left ..), Nat.add_sub_cancel]
          cases k with
          | zero => simp [moved]
          | succ k =>
              have hpos : 1 ≤ moved runs (k + 1) := (Nat.le_add_left 1 k).trans (le_moved runs _)
              have hstep : moved runs (k + 1) = (moved runs (k + 1) - 1) + 1 := by omega
              rw [hstep, List.getElem?_cons_succ, List.getElem?_cons_succ]
              exact ih (Nat.lt_of_succ_lt_succ hk)

/-- Runs that nothing but filler stands in. -/
def Fillers (runs : List (List (List Char))) : Prop :=
  ∀ run ∈ runs, ∀ line ∈ run, isFiller line = true

instance (runs : List (List (List Char))) : Decidable (Fillers runs) :=
  inferInstanceAs (Decidable (∀ run ∈ runs, ∀ line ∈ run, isFiller line = true))

/-- Padding moves content and neither adds nor takes any. -/
theorem numbered_pad {runs : List (List (List Char))} (h : Fillers runs)
    (lines : List (List Char)) :
    numbered 1 (pad runs lines) =
      (numbered 1 lines).map fun row => (moved runs row.1, row.2) := by
  induction runs generalizing lines with
  | nil => simp [pad, moved_nil]
  | cons run runs ih =>
      obtain ⟨hrun, hruns⟩ := List.forall_mem_cons.mp h
      cases lines with
      | nil =>
          have hrest : numbered 1 (pad runs []) = [] := ih hruns []
          rw [pad, numbered_append, numbered_of_filler hrun, numbered_add, hrest]
          rfl
      | cons line lines =>
          have hpast : numbered (1 + run.length) (line :: pad runs lines) =
              (numbered 1 (line :: pad runs lines)).map fun row => (row.1 + run.length, row.2) :=
            numbered_add ..
          rw [pad, numbered_append, numbered_of_filler hrun, List.nil_append, hpast, numbered_cons,
            numbered_cons, numbered_add 1 1 (pad runs lines), numbered_add 1 1 lines, ih hruns]
          simp only [List.map_append, List.map_map]
          congr 1
          · cases content? line with
            | none => rfl
            | some fields => simp [moved]
          · refine List.map_congr_left fun row _ => ?_
            simp [moved_cons_succ]
            omega

/-! ### Reading -/

/-- The same fault on another line. -/
def renumber (place : Nat → Nat) : Fault → Fault
  | .row file line reason => .row file (place line) reason
  | fault => fault

section Reading

variable {text text' : List Char} {place : Nat → Nat}

/-- Whether a row is a header does not depend on where it stands. -/
theorem rows_of_contentLines
    (h : contentLines text' = (contentLines text).map fun row => (place row.1, row.2)) :
    rows text' = (rows text).map fun row => (place row.1, row.2) := by
  rw [rows_eq, rows_eq, h]
  cases contentLines text with
  | nil => rfl
  | cons first rest =>
      rw [List.map_cons, dropHeader, dropHeader]
      split
      · rfl
      · rfl

variable {β : Type} {file : String} {read : Fields → Except RowFault β}

theorem readRows_map (rows : List (Nat × Fields)) :
    readRows file read (rows.map fun row => (place row.1, row.2)) =
      (readRows file read rows).mapError (renumber place) := by
  induction rows with
  | nil => rfl
  | cons row rows ih =>
      rw [List.map_cons, readRows, readRows, ih]
      cases read row.2 with
      | error reason => rfl
      | ok value => cases readRows file read rows <;> rfl

theorem links_renumber (h : rows text' = (rows text).map fun row => (place row.1, row.2)) :
    links file text' = (links file text).mapError (renumber place) := by
  rw [links, links, h, readRows_map]

theorem nodes_renumber (h : rows text' = (rows text).map fun row => (place row.1, row.2)) :
    nodes file text' = (nodes file text).mapError (renumber place) := by
  rw [nodes_eq, nodes_eq, h, readRows_map]
  cases readRows file readNode (rows text) with
  | error fault => rfl
  | ok listed =>
      show refuseGaps file listed = (refuseGaps file listed).mapError (renumber place)
      rcases refuseGaps_cases file listed with hok | ⟨position, hgap⟩
      · rw [hok]
        rfl
      · rw [hgap]
        rfl

/-- What comes of a listing when filler is put between its lines: the same is accepted, a row is
refused for the same reason on the line that it was moved to, and the numbers of nodes are refused
as before. -/
structure CarriesOver {γ : Type} (read : Fields → Except RowFault β) (file : String)
    (runs : List (List (List Char))) (text text' : List Char) (outcome outcome' : Except Fault γ) :
    Prop where
  accepted : ∀ value, outcome' = .ok value ↔ outcome = .ok value
  refused : ∀ number reason, outcome = .error (.row file number reason) →
    outcome' = .error (.row file (moved runs number) reason) ∧
      ∃ line, RefusedAt read text number line reason ∧
        RefusedAt read text' (moved runs number) line reason
  gapped : ∀ fault, outcome' = .error (.topology fault) ↔ outcome = .error (.topology fault)

/-- A reading that only differs in the numbers of lines carries over if whatever refuses a row is
seen in the rows. -/
theorem carriesOver {γ : Type} {runs : List (List (List Char))} {outcome : List Char → Except Fault γ}
    (hpad : Text.properLines text' = pad runs (Text.properLines text))
    (hrenumber : outcome text' = (outcome text).mapError (renumber (moved runs)))
    (hrows : ∀ text number reason, outcome text = .error (.row file number reason) →
      readRows file read (rows text) = .error (.row file number reason)) :
    CarriesOver read file runs text text' (outcome text) (outcome text') := by
  refine ⟨fun value => ?_, fun number reason hrefused => ?_, fun fault => ?_⟩
  · rw [hrenumber]
    cases outcome text with
    | ok value' => simp [Except.mapError]
    | error fault => simp [Except.mapError]
  · have hrefused' : outcome text' = .error (.row file (moved runs number) reason) := by
      rw [hrenumber, hrefused]
      rfl
    obtain ⟨line, hline⟩ := refusedAt_of_readRows (hrows _ _ _ hrefused)
    obtain ⟨line', hline'⟩ := refusedAt_of_readRows (hrows _ _ _ hrefused')
    obtain ⟨k, rfl⟩ := Nat.exists_eq_add_of_le' hline.number_pos
    obtain ⟨hk, -⟩ := List.getElem?_eq_some_iff.mp hline.on_line
    have hsame : some line' = some line := by
      rw [← hline'.on_line, ← hline.on_line, hpad]
      exact getElem?_pad_moved hk
    obtain rfl := Option.some.inj hsame
    exact ⟨hrefused', line', hline, hline'⟩
  · rw [hrenumber]
    cases outcome text with
    | ok value => simp [Except.mapError]
    | error fault' => cases fault' <;> simp [Except.mapError, renumber]

end Reading

/-- Filler in front of, between or behind the lines of a listing changes nothing of what is read,
and a fault names the line that the first row that is refused was moved to. -/
theorem reading_of_padded {text text' : List Char} {runs : List (List (List Char))}
    (hfillers : Fillers runs)
    (hpad : Text.properLines text' = pad runs (Text.properLines text)) (file : String) :
    CarriesOver readNode file runs text text' (nodes file text) (nodes file text') ∧
      CarriesOver readLink file runs text text' (links file text) (links file text') := by
  have hcontent : contentLines text' =
      (contentLines text).map fun row => (moved runs row.1, row.2) := by
    rw [contentLines_eq, contentLines_eq, hpad, numbered_pad hfillers]
  have hrows := rows_of_contentLines hcontent
  exact ⟨carriesOver hpad (nodes_renumber hrows) fun _ _ _ => readRows_of_nodes_row,
    carriesOver hpad (links_renumber hrows) fun _ _ _ h => h⟩

/-- Comments in front of a header and behind it and an empty line move the row of an unknown kind
from the third line to the sixth, where it is refused as before. -/
theorem reading_of_padded_nodes :
    nodes "nodes" "id kind\n0 server\r\n1 hub".toList =
        .error (.row "nodes" 3 (.unknownKind "hub")) ∧
      nodes "nodes" "# top\nid kind\n\t# first\r\n0 server\n\n1 hub\n# end".toList =
        .error (.row "nodes" 6 (.unknownKind "hub")) := by
  have hplain : nodes "nodes" "id kind\n0 server\r\n1 hub".toList =
      .error (.row "nodes" 3 (.unknownKind "hub")) := by decide +kernel
  have hpad : Text.properLines
        "# top\nid kind\n\t# first\r\n0 server\n\n1 hub\n# end".toList =
      pad [["# top".toList], ["\t# first".toList], [[]], ["# end".toList]]
        (Text.properLines "id kind\n0 server\r\n1 hub".toList) := by
    decide +kernel
  obtain ⟨hnodes, -⟩ := reading_of_padded (by decide +kernel) hpad "nodes"
  exact ⟨hplain, (hnodes.refused 3 _ hplain).1⟩

end StreamPlacement.Listing
