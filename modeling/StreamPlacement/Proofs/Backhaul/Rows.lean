import StreamPlacement.Proofs.Backhaul.Listing
import StreamPlacement.Proofs.Text.Fields

/-!
The lines of a listing and the rows on them.

A line ends at a line feed, with or without a carriage return in front of it, and what follows the
last end is a line only if there is something. A line is filler if nothing but blanks stand on it,
or if `#` is the first character that is not blank. Every other line carries content, and all of
these but a header are rows. Reading goes through the rows in order and ends at the first fault.
-/

namespace StreamPlacement

/-! ### Fields -/

namespace Text

/-- A line without the carriage return that may stand at its end. -/
def dropReturn (line : List Char) : List Char :=
  if line.getLast? = some '\r' then line.dropLast else line

theorem fields_dropReturn (line : List Char) : fields (dropReturn line) = fields line := by
  unfold dropReturn
  split
  · next hlast =>
      have hsplit : line = line.dropLast ++ ['\r'] :=
        (List.dropLast_append_getLast? '\r' hlast).symm
      conv_rhs => rw [hsplit]
      exact (fields_concat_of_blank (by decide) _).symm
  · rfl

/-- The lines of a text without their ends. What follows the last end is a line only if there is
something. -/
def properLines (text : List Char) : List (List Char) :=
  let cut := lines text
  (if cut.getLast? = some [] then cut.dropLast else cut).map dropReturn

end Text

namespace Listing

/-! ### Content -/

/-- Nothing stands on a line, or a comment. -/
def isFiller (line : List Char) : Bool := (line.dropWhile Text.isBlank).head?.all (· == '#')

/-- The fields of a line that carries content. -/
def content? (line : List Char) : Option Fields :=
  match Text.fields line with
  | [] => none
  | ('#' :: _) :: _ => none
  | fields => some fields

theorem content?_of_fields_eq {line line' : List Char} (h : Text.fields line = Text.fields line') :
    content? line = content? line' := by
  rw [content?, content?, h]

/-- A line carries its fields unless it is filler. -/
theorem content?_eq (line : List Char) :
    content? line = if isFiller line then none else some (Text.fields line) := by
  induction line with
  | nil => rfl
  | cons c rest ih =>
      cases hblank : Text.isBlank c with
      | true =>
          have hfields := Text.fields_cons_of_blank hblank rest
          have hfiller : isFiller (c :: rest) = isFiller rest := by simp [isFiller, hblank]
          rw [content?_of_fields_eq hfields, ih, hfiller, hfields]
      | false =>
          obtain ⟨word, more, hfields⟩ := Text.fields_cons_of_not_blank hblank rest
          have hfiller : isFiller (c :: rest) = (c == '#') := by simp [isFiller, hblank]
          rw [content?, hfields, hfiller]
          by_cases hc : c = '#'
          · simp [hc]
          · simp [hc]

theorem fields_of_content? {line : List Char} {fields : Fields}
    (h : content? line = some fields) : fields = Text.fields line := by
  rw [content?_eq] at h
  split at h
  · cases h
  · exact (Option.some.inj h).symm

theorem ne_nil_of_content? {line : List Char} {fields : Fields}
    (h : content? line = some fields) : fields ≠ [] := by
  have hfields := fields_of_content? h
  rintro rfl
  rw [content?, ← hfields] at h
  cases h

/-- The content of some lines, with their numbers counted from `number` on. -/
def numbered (number : Nat) (lines : List (List Char)) : List (Nat × Fields) :=
  (lines.zipIdx number).filterMap fun entry => (content? entry.1).map (entry.2, ·)

theorem numbered_cons (number : Nat) (line : List Char) (lines : List (List Char)) :
    numbered number (line :: lines) =
      ((content? line).map (number, ·)).toList ++ numbered (number + 1) lines := by
  rw [numbered, List.zipIdx_cons, List.filterMap_cons]
  cases content? line with
  | none => rfl
  | some fields => rfl

theorem numbered_append (number : Nat) (front back : List (List Char)) :
    numbered number (front ++ back) =
      numbered number front ++ numbered (number + front.length) back := by
  simp [numbered, List.zipIdx_append]

/-- The numbers of later lines are greater. -/
theorem numbered_add (number shift : Nat) (lines : List (List Char)) :
    numbered (number + shift) lines =
      (numbered number lines).map fun row => (row.1 + shift, row.2) := by
  induction lines generalizing number with
  | nil => rfl
  | cons line lines ih =>
      rw [numbered_cons, numbered_cons, Nat.add_right_comm, ih, List.map_append]
      cases content? line with
      | none => rfl
      | some fields => rfl

/-- Filler carries nothing. -/
theorem numbered_of_filler {lines : List (List Char)} (h : ∀ line ∈ lines, isFiller line = true)
    (number : Nat) : numbered number lines = [] := by
  rw [numbered, List.filterMap_eq_nil_iff]
  intro entry hentry
  have hmem : entry.1 ∈ lines := List.fst_mem_of_mem_zipIdx hentry
  simp [content?_eq, h _ hmem]

theorem numbered_map {change : List Char → List Char}
    (h : ∀ line, Text.fields (change line) = Text.fields line) (number : Nat)
    (lines : List (List Char)) : numbered number (lines.map change) = numbered number lines := by
  simp only [numbered, List.zipIdx_map, List.filterMap_map, Function.comp_def, Prod.map,
    content?_of_fields_eq (h _), id]

/-- The content of a listing is on its lines as they are counted without their ends. -/
theorem contentLines_eq (text : List Char) :
    contentLines text = numbered 1 (Text.properLines text) := by
  have hcut : contentLines text = numbered 1 (Text.lines text) := by
    unfold contentLines numbered
    refine List.filterMap_congr fun entry _ => ?_
    dsimp only
    unfold content?
    generalize Text.fields entry.1 = fields
    rcases fields with _ | ⟨_ | ⟨c, word⟩, more⟩
    · rfl
    · rfl
    · by_cases hc : c = '#'
      · simp [hc]
      · simp [hc]
  rw [hcut, Text.properLines, numbered_map Text.fields_dropReturn]
  split
  · next hlast =>
      -- There is nothing behind the last end.
      have hempty : ∀ number, numbered number [[]] = [] := fun number => rfl
      conv_lhs => rw [← List.dropLast_append_getLast? [] hlast]
      rw [numbered_append, hempty, List.append_nil]
  · rfl

theorem mem_numbered {number : Nat} {lines : List (List Char)} {row : Nat × Fields} :
    row ∈ numbered number lines ↔
      number ≤ row.1 ∧ ∃ line, lines[row.1 - number]? = some line ∧ content? line = some row.2 := by
  simp only [numbered, List.mem_filterMap, Option.map_eq_some_iff]
  constructor
  · rintro ⟨⟨line, position⟩, hentry, fields, hcontent, rfl⟩
    obtain ⟨hle, hline⟩ := List.mem_zipIdx_iff_le_and_getElem?_sub.mp hentry
    exact ⟨hle, line, hline, hcontent⟩
  · rintro ⟨hle, line, hline, hcontent⟩
    exact ⟨(line, row.1), List.mem_zipIdx_iff_le_and_getElem?_sub.mpr ⟨hle, hline⟩, row.2, hcontent,
      rfl⟩

/-- Content comes in the order of the lines. -/
theorem ascending_numbered (number : Nat) (lines : List (List Char)) :
    (numbered number lines).Pairwise fun row row' => row.1 < row'.1 := by
  induction lines generalizing number with
  | nil => exact .nil
  | cons line lines ih =>
      rw [numbered_cons]
      refine List.pairwise_append.mpr ⟨?_, ih (number + 1), fun row hrow row' hrow' => ?_⟩
      · cases content? line <;> simp
      · have hfirst : row.1 = number := by
          obtain ⟨fields, -, rfl⟩ := Option.map_eq_some_iff.mp (Option.mem_toList.mp hrow)
          rfl
        have hlater := (mem_numbered.mp hrow').1
        omega

/-! ### Rows -/

/-- Leaves out a header, which only the first line with content can be. -/
def dropHeader : List (Nat × Fields) → List (Nat × Fields)
  | [] => []
  | first :: rest => if isHeader first.2 then rest else first :: rest

theorem rows_eq (text : List Char) : rows text = dropHeader (contentLines text) := by
  unfold rows
  cases contentLines text with
  | nil => rfl
  | cons first rest => rfl

/-- Every row is on a line with content. -/
theorem rows_sublist (text : List Char) : (rows text).Sublist (contentLines text) := by
  rw [rows_eq]
  cases contentLines text with
  | nil => exact .refl _
  | cons first rest =>
      rw [dropHeader]
      split
      · exact List.sublist_cons_self first rest
      · exact .refl _

theorem ascending_rows (text : List Char) :
    (rows text).Pairwise fun row row' => row.1 < row'.1 := by
  have hcontent := ascending_numbered 1 (Text.properLines text)
  rw [← contentLines_eq] at hcontent
  exact hcontent.sublist (rows_sublist text)

/-- A row is on the line of its number. -/
theorem line_of_mem_rows {text : List Char} {row : Nat × Fields} (h : row ∈ rows text) :
    1 ≤ row.1 ∧ ∃ line, (Text.properLines text)[row.1 - 1]? = some line ∧
      content? line = some row.2 := by
  have hcontent := (rows_sublist text).mem h
  rwa [contentLines_eq, mem_numbered] at hcontent

/-! ### Reading -/

variable {β : Type} {file : String} {read : Fields → Except RowFault β}

/-- Reading that fails names the line of the first row that is refused. -/
theorem readRows_eq_error {rows : List (Nat × Fields)} {fault : Fault}
    (h : readRows file read rows = .error fault) :
    ∃ front row rest reason, rows = front ++ row :: rest ∧
      (∀ earlier ∈ front, ∃ value, read earlier.2 = .ok value) ∧
      read row.2 = .error reason ∧ fault = .row file row.1 reason := by
  induction rows with
  | nil => cases h
  | cons first rows ih =>
      rw [readRows] at h
      cases hfirst : read first.2 with
      | error reason =>
          rw [hfirst] at h
          exact ⟨[], first, rows, reason, rfl, by simp, hfirst, (Except.error.inj h).symm⟩
      | ok value =>
          rw [hfirst] at h
          cases hrest : readRows file read rows with
          | ok values => simp [hrest, Except.map] at h
          | error later =>
              simp only [hrest, Except.map, Except.error.injEq] at h
              subst h
              obtain ⟨front, row, rest, reason, rfl, hfront, hrow, rfl⟩ := ih hrest
              refine ⟨first :: front, row, rest, reason, rfl, ?_, hrow, rfl⟩
              simp only [List.forall_mem_cons]
              exact ⟨⟨value, hfirst⟩, hfront⟩

/-- A row that is refused, the line that it stands on, and why it is refused. All rows in front of
it are accepted. -/
structure RefusedAt (read : Fields → Except RowFault β) (text : List Char) (number : Nat)
    (line : List Char) (reason : RowFault) : Prop where
  number_pos : 1 ≤ number
  on_line : (Text.properLines text)[number - 1]? = some line
  row : (number, Text.fields line) ∈ rows text
  refused : read (Text.fields line) = .error reason
  earlier : ∀ row ∈ rows text, row.1 < number → ∃ value, read row.2 = .ok value

/-- Reading a text that fails names the line of the first row that is refused. -/
theorem refusedAt_of_readRows {text : List Char} {number : Nat} {reason : RowFault}
    (h : readRows file read (rows text) = .error (.row file number reason)) :
    ∃ line, RefusedAt read text number line reason := by
  obtain ⟨front, row, rest, reason, hrows, hfront, hrow, hfault⟩ := readRows_eq_error h
  obtain ⟨-, rfl, rfl⟩ := Fault.row.inj hfault
  have hmem : row ∈ rows text := by simp [hrows]
  have hascending := ascending_rows text
  rw [hrows, List.pairwise_append, List.pairwise_cons] at hascending
  obtain ⟨hpos, line, hline, hcontent⟩ := line_of_mem_rows hmem
  have hfields := fields_of_content? hcontent
  refine ⟨line, hpos, hline, hfields ▸ hmem, hfields ▸ hrow, fun earlier hearlier hlt => ?_⟩
  rw [hrows, List.mem_append, List.mem_cons] at hearlier
  rcases hearlier with hearlier | rfl | hlater
  · exact hfront earlier hearlier
  · exact absurd hlt (Nat.lt_irrefl _)
  · have := hascending.2.1.1 earlier hlater
    omega

/-! ### Nodes -/

/-- The numbers of some nodes, in their order. -/
def numbers (nodes : List Node) : List Nat := nodes.map (·.id.index)

/-- Refuses nodes whose numbers are not those from zero on. -/
def refuseGaps (file : String) (nodes : List Node) : Except Fault (List Node) :=
  match firstGap? (sortByKey id (numbers nodes)) with
  | some position => .error (.topology (.sparseIds file position))
  | none => .ok nodes

variable {text : List Char}

theorem nodes_eq : nodes file text = (readRows file readNode (rows text)).bind (refuseGaps file) :=
  rfl

/-- Nodes are accepted as they stand or refused for their numbers. -/
theorem refuseGaps_cases (file : String) (nodes : List Node) :
    refuseGaps file nodes = .ok nodes ∨
      ∃ position, refuseGaps file nodes = .error (.topology (.sparseIds file position)) := by
  unfold refuseGaps
  split
  · next position _ => exact .inr ⟨position, rfl⟩
  · exact .inl rfl

/-- Nodes that are accepted are those of the rows. -/
theorem readRows_of_nodes {listed : List Node} (h : nodes file text = .ok listed) :
    readRows file readNode (rows text) = .ok listed := by
  rw [nodes_eq] at h
  obtain ⟨read, hread, hchecked⟩ := bind_eq_ok h
  rcases refuseGaps_cases file read with hok | ⟨position, hgap⟩
  · rw [hread, ← hok, hchecked]
  · rw [hgap] at hchecked
    cases hchecked

/-- A row that is named by a fault was refused by itself. -/
theorem readRows_of_nodes_row {number : Nat} {reason : RowFault}
    (h : nodes file text = .error (.row file number reason)) :
    readRows file readNode (rows text) = .error (.row file number reason) := by
  rw [nodes_eq] at h
  cases hread : readRows file readNode (rows text) with
  | error fault =>
      rw [hread] at h
      exact h
  | ok read =>
      rw [hread] at h
      change refuseGaps file read = _ at h
      rcases refuseGaps_cases file read with hok | ⟨position, hgap⟩
      · rw [hok] at h
        cases h
      · rw [hgap] at h
        cases h

end Listing

end StreamPlacement
