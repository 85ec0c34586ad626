import StreamPlacement.Text.Blank

/-!
What the fields of a line are.

Blanks in front of a line reach no field, and neither does one at its end. Characters that are not
blank and have a blank or nothing behind them are the first field, and what comes behind has the
fields it would have on a line of its own.
-/

namespace StreamPlacement.Text

/-- Text without breaks is one piece. -/
theorem pieces_of_no_break {isBreak : Char → Bool} {text : List Char}
    (h : ∀ c ∈ text, isBreak c = false) : pieces isBreak text = [text] := by
  induction text with
  | nil => rfl
  | cons c rest ih =>
      obtain ⟨hc, hrest⟩ := List.forall_mem_cons.mp h
      simp [pieces, hc, ih hrest]

/-- Pieces that are set apart by one break each are found again. -/
theorem pieces_intercalate {isBreak : Char → Bool} {c : Char} (hc : isBreak c = true)
    {groups : List (List Char)} (hne : groups ≠ [])
    (hfree : ∀ group ∈ groups, ∀ d ∈ group, isBreak d = false) :
    pieces isBreak ([c].intercalate groups) = groups := by
  match groups with
  | [group] =>
      rw [List.intercalate_singleton]
      exact pieces_of_no_break (hfree group List.mem_cons_self)
  | group :: next :: groups =>
      obtain ⟨hgroup, hrest⟩ := List.forall_mem_cons.mp hfree
      rw [List.intercalate_cons_cons, List.append_assoc, List.singleton_append,
        pieces_append_break isBreak _ _ c hc, pieces_of_no_break hgroup,
        pieces_intercalate hc (by simp) hrest]
      rfl

/-- Text without a line feed is one line. -/
theorem lines_of_no_feed {text : List Char} (h : '\n' ∉ text) : lines text = [text] :=
  pieces_of_no_break fun _ hc => beq_eq_false_iff_ne.mpr fun heq => h (heq ▸ hc)

/-! ### Blanks -/

theorem fields_cons_of_blank {c : Char} (h : isBlank c = true) (rest : List Char) :
    fields (c :: rest) = fields rest := by
  simp [fields, pieces, h]

/-- The first character that is not blank begins the first field. -/
theorem fields_cons_of_not_blank {c : Char} (h : isBlank c = false) (rest : List Char) :
    ∃ word more, fields (c :: rest) = (c :: word) :: more := by
  cases hpieces : pieces isBlank rest with
  | nil => exact absurd hpieces (pieces_ne_nil isBlank rest)
  | cons word more => simp [fields, pieces, h, hpieces]

/-- A blank at the end of a line reaches no field. -/
theorem fields_concat_of_blank {c : Char} (h : isBlank c = true) (line : List Char) :
    fields (line ++ [c]) = fields line := by
  rw [fields, pieces_append_break isBlank line [] c h]
  simp [fields, pieces]

/-- Blanks in front of a line reach no field. -/
theorem fields_append_of_blanks {front : List Char} (h : ∀ c ∈ front, isBlank c = true)
    (line : List Char) : fields (front ++ line) = fields line := by
  induction front with
  | nil => rfl
  | cons c front ih =>
      obtain ⟨hc, hfront⟩ := List.forall_mem_cons.mp h
      rw [List.cons_append, fields_cons_of_blank hc, ih hfront]

/-! ### The first field -/

/-- At least one character, and none that is blank. -/
structure IsField (field : List Char) : Prop where
  ne_nil : field ≠ []
  not_blank : ∀ c ∈ field, isBlank c = false

/-- Nothing, or something that a blank stands in front of. -/
def StartsApart (rest : List Char) : Prop := ∀ c ∈ rest.head?, isBlank c = true

instance (rest : List Char) : Decidable (StartsApart rest) :=
  Option.decidableForallMem rest.head?

theorem fields_append_of_field {field : List Char} (h : IsField field) {rest : List Char}
    (hrest : StartsApart rest) : fields (field ++ rest) = field :: fields rest := by
  have hpiece : pieces isBlank field = [field] := pieces_of_no_break h.not_blank
  cases rest with
  | nil => simp [fields, pieces, hpiece, h.ne_nil]
  | cons c rest =>
      have hc : isBlank c = true := hrest c rfl
      rw [fields_cons_of_blank hc, fields, pieces_append_break isBlank field rest c hc, hpiece]
      simp [fields, h.ne_nil]

end StreamPlacement.Text
