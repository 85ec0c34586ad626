import StreamPlacement.Proofs.Backhaul.Rows

/-!
Which line of a listing is left out as a header, and that every other line with content counts.

The first line with content is a header if its first field is not read as a word. A field that
spells a whole number is read as one unless it has a minus sign or more than 64 bits; so a first row
that begins with such a number is left out without a word, as if it were a header.
-/

namespace StreamPlacement.Listing

open Decimal (SpellsInteger FitsWord)

/-! ### The first line with content -/

/-- The first field of the first line that is not filler. -/
def leading? (text : List Char) : Option (List Char) :=
  ((Text.properLines text).find? (!isFiller ·)).bind fun line => (Text.fields line).head?

/-- The number of lines that are not filler. -/
def contentCount (text : List Char) : Nat := (Text.properLines text).countP (!isFiller ·)

theorem length_contentLines (text : List Char) :
    (contentLines text).length = contentCount text := by
  have hlength : ∀ number lines, (numbered number lines).length = lines.countP (!isFiller ·) := by
    intro number lines
    induction lines generalizing number with
    | nil => rfl
    | cons line lines ih =>
        rw [numbered_cons, List.length_append, ih, content?_eq]
        cases hfiller : isFiller line
        · simp [hfiller, Nat.add_comm]
        · simp [hfiller]
  rw [contentLines_eq, hlength, contentCount]

theorem leading?_eq (text : List Char) :
    leading? text = (contentLines text).head?.bind fun row => row.2.head? := by
  have hfirst : ∀ number lines, ((numbered number lines).head?.bind fun row => row.2.head?) =
      (lines.find? (!isFiller ·)).bind fun line => (Text.fields line).head? := by
    intro number lines
    induction lines generalizing number with
    | nil => rfl
    | cons line lines ih =>
        rw [numbered_cons, content?_eq, List.find?_cons]
        cases hfiller : isFiller line
        · simp
        · simpa using ih (number + 1)
  rw [contentLines_eq, hfirst, leading?]

/-! ### What is left out -/

/-- A first field makes a header if it is no whole number that fits into a word. -/
def Heads (token : List Char) : Prop := ¬ (SpellsInteger token ∧ FitsWord token)

theorem isNone_readWord?_iff (token : List Char) :
    (Decimal.readWord? token).isNone = true ↔ Heads token := by
  rw [Heads, ← Decimal.isSome_readWord?_iff]
  cases Decimal.readWord? token <;> simp

instance (token : List Char) : Decidable (Heads token) :=
  decidable_of_iff _ (isNone_readWord?_iff token)

theorem isHeader_iff {fields : Fields} {token : List Char} (h : fields.head? = some token) :
    isHeader fields = true ↔ Heads token := by
  rw [isHeader, h, Option.bind_some, isNone_readWord?_iff]

/-- Either no line carries content, or the first that does has a first field. -/
theorem contentLines_cases (text : List Char) :
    (contentLines text = [] ∧ leading? text = none) ∨
      ∃ first rest token, contentLines text = first :: rest ∧ first.2.head? = some token ∧
        leading? text = some token := by
  rw [leading?_eq]
  cases hcontent : contentLines text with
  | nil => exact .inl ⟨rfl, rfl⟩
  | cons first rest =>
      have hmem : first ∈ contentLines text := by simp [hcontent]
      rw [contentLines_eq, mem_numbered] at hmem
      obtain ⟨-, line, -, hfields⟩ := hmem
      cases htoken : first.2.head? with
      | none => exact absurd (List.head?_eq_none_iff.mp htoken) (ne_nil_of_content? hfields)
      | some token => exact .inr ⟨first, rest, token, rfl, htoken, by simp [htoken]⟩

/-- A count takes in every line with content, but not a first one whose first field is as in
`heads`. -/
def Accounted (heads : List Char → Prop) [DecidablePred heads] (text : List Char) (count : Nat) :
    Prop :=
  count + (if ∃ token ∈ leading? text, heads token then 1 else 0) = contentCount text

theorem accounted_rows (text : List Char) : Accounted Heads text (rows text).length := by
  rw [Accounted, ← length_contentLines, rows_eq]
  rcases contentLines_cases text with ⟨hnone, hleading⟩ | ⟨first, rest, token, hsome, htoken, hleading⟩
  · simp [hnone, hleading, dropHeader]
  · rw [hsome, hleading, dropHeader]
    simp only [isHeader_iff htoken]
    by_cases hheads : Heads token <;> simp [hheads]

/-- Were only a field that spells no whole number a header, the count would be the same unless the
first field is a whole number that does not fit into a word. -/
theorem Accounted.spelled_iff {text : List Char} {count : Nat} (h : Accounted Heads text count) :
    Accounted (¬ SpellsInteger ·) text count ↔
      ∀ token ∈ leading? text, SpellsInteger token → FitsWord token := by
  unfold Accounted at *
  cases hleading : leading? text with
  | none => simpa [hleading] using h
  | some token =>
      simp only [hleading, Option.mem_some_iff, exists_eq_left', forall_eq'] at h ⊢
      by_cases hspells : SpellsInteger token
      · by_cases hfits : FitsWord token
        · simpa [Heads, hspells, hfits] using h
        · have hheads : Heads token := fun hboth => hfits hboth.2
          simp only [hheads, if_true, hspells, not_true_eq_false, if_false, hfits, forall_true_left,
            iff_false] at h ⊢
          omega
      · simpa [Heads, hspells] using h

/-! ### Readings -/

variable {β γ : Type} {file : String} {read : Fields → Except RowFault β}

theorem length_of_readRows {rows : List (Nat × Fields)} {values : List β}
    (h : readRows file read rows = .ok values) : values.length = rows.length :=
  (readRows_eq_ok_iff.mp h).length_eq.symm

/-- The first line with content is read: what stands on it is accepted, or it is refused and
named. -/
def Opens (read : Fields → Except RowFault β) (file : String) (text : List Char)
    (outcome : Except Fault γ) : Prop :=
  ∃ first, (contentLines text).head? = some first ∧ (rows text).head? = some first ∧
    ((∃ value, read first.2 = .ok value) ∨
      ∃ reason, read first.2 = .error reason ∧ outcome = .error (.row file first.1 reason))

theorem opens_of_fits {text : List Char} {token : List Char} (h : leading? text = some token)
    (hspells : SpellsInteger token) (hfits : FitsWord token)
    {outcome : Except Fault γ}
    (houtcome : ∀ fault, readRows file read (rows text) = .error fault → outcome = .error fault) :
    Opens read file text outcome := by
  rcases contentLines_cases text with ⟨-, hnone⟩ | ⟨first, rest, token', hsome, htoken, hleading⟩
  · rw [hnone] at h
    cases h
  · obtain rfl := Option.some.inj (hleading.symm.trans h)
    have hnot : ¬ isHeader first.2 = true := fun hheader =>
      (isHeader_iff htoken).mp hheader ⟨hspells, hfits⟩
    have hrows : rows text = first :: rest := by rw [rows_eq, hsome, dropHeader, if_neg hnot]
    refine ⟨first, by rw [hsome]; rfl, by rw [hrows]; rfl, ?_⟩
    cases hread : read first.2 with
    | ok value => exact .inl ⟨value, rfl⟩
    | error reason =>
        refine .inr ⟨reason, rfl, houtcome _ ?_⟩
        rw [hrows, readRows, hread]

/-- Whatever is accepted has as many nodes or links as lines with content, but for a first line
whose first field is no whole number that fits into a word. So it has all that it should have,
unless the first row begins with a whole number that has a minus sign or more than 64 bits. A first
row that begins with any other whole number is read or refused, and not left out. -/
theorem rows_accounted (file : String) (text : List Char) :
    (∀ listed, nodes file text = .ok listed → Accounted Heads text listed.length ∧
      (Accounted (¬ SpellsInteger ·) text listed.length ↔
        ∀ token ∈ leading? text, SpellsInteger token → FitsWord token)) ∧
    (∀ listed, links file text = .ok listed → Accounted Heads text listed.length ∧
      (Accounted (¬ SpellsInteger ·) text listed.length ↔
        ∀ token ∈ leading? text, SpellsInteger token → FitsWord token)) ∧
    ∀ token, leading? text = some token → SpellsInteger token → FitsWord token →
      Opens readNode file text (nodes file text) ∧ Opens readLink file text (links file text) := by
  have hcount : ∀ count, count = (rows text).length → Accounted Heads text count ∧
      (Accounted (¬ SpellsInteger ·) text count ↔
        ∀ token ∈ leading? text, SpellsInteger token → FitsWord token) := by
    rintro _ rfl
    have haccounted := accounted_rows text
    exact ⟨haccounted, haccounted.spelled_iff⟩
  refine ⟨fun listed h => ?_, fun listed h => ?_, fun token htoken hspells hfits => ⟨?_, ?_⟩⟩
  · exact hcount _ (length_of_readRows (readRows_of_nodes h))
  · exact hcount _ (length_of_readRows h)
  · refine opens_of_fits htoken hspells hfits fun fault hfault => ?_
    rw [nodes_eq, hfault]
    rfl
  · exact opens_of_fits htoken hspells hfits fun fault hfault => hfault

/-- A header is left out, and all rows behind it are nodes. -/
theorem rows_accounted_behind_header :
    ∃ listed, nodes "nodes" "# top\nid kind\n0 server\n\n1 ap".toList = .ok listed ∧
      listed.length + 1 = contentCount "# top\nid kind\n0 server\n\n1 ap".toList := by
  have hread : nodes "nodes" "# top\nid kind\n0 server\n\n1 ap".toList =
      .ok [{ id := ⟨0⟩, kind := .cacheServer }, { id := ⟨1⟩, kind := .accessPoint }] := by
    decide +kernel
  obtain ⟨hnodes, -⟩ := rows_accounted "nodes" "# top\nid kind\n0 server\n\n1 ap".toList
  have hheads : ∃ token ∈ leading? "# top\nid kind\n0 server\n\n1 ap".toList, Heads token := by
    decide +kernel
  have hcount := (hnodes _ hread).1
  rw [Accounted, if_pos hheads] at hcount
  exact ⟨_, hread, hcount⟩

/-- A first row that begins with a negative number is left out as if it were a header. -/
theorem negative_row_lost :
    ∃ listed, nodes "nodes" "-1 server\n0 ap".toList = .ok listed ∧
      leading? "-1 server\n0 ap".toList = some ['-', '1'] ∧ SpellsInteger ['-', '1'] ∧
      ¬ Accounted (¬ SpellsInteger ·) "-1 server\n0 ap".toList listed.length :=
  ⟨[{ id := ⟨0⟩, kind := .accessPoint }], by decide +kernel, by decide +kernel, by decide,
    by unfold Accounted; decide +kernel⟩

end StreamPlacement.Listing
