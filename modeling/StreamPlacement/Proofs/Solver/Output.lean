import StreamPlacement.Proofs.Decimal.Numeral
import StreamPlacement.Proofs.Text.Fields
import StreamPlacement.Solver.Answer

/-!
What is read of a solver's output.

The output is read line by line, so that what stands on both sides of a line feed is read
independently. A line says an assignment if its first two fields are whole numbers that fit into a
word, however they are set apart and whatever follows them; every other line says nothing. So all
assignments that were written are read back in order, whatever lines stand between them.
-/

namespace StreamPlacement

/-! ### Words on a line -/

namespace Decimal

/-- A text spells a word: a whole number that fits into one. -/
def SpellsWord (text : List Char) : Prop := SpellsInteger text ∧ FitsWord text

instance (text : List Char) : Decidable (FitsWord text) := inferInstanceAs (Decidable (_ ∧ _))

instance (text : List Char) : Decidable (SpellsWord text) := inferInstanceAs (Decidable (_ ∧ _))

theorem isBlank_of_isDigit {c : Char} (h : c.isDigit = true) : Text.isBlank c = false := by
  have hrange : 48 ≤ c.toNat ∧ c.toNat ≤ 57 := Char.isDigit_iff_toNat.mp h
  simp [Text.isBlank, Text.blankRanges]
  omega

/-- A number that is written out is a field. -/
theorem isField_toDigits (n : Nat) : Text.IsField (Nat.toDigits 10 n) where
  ne_nil := Nat.toDigits_ne_nil
  not_blank _ hc := isBlank_of_isDigit (isDigit_of_mem_toDigits hc)

end Decimal

namespace Solver

/-! ### Lines -/

/-- Blanks that do not end a line. -/
def Blanks (text : List Char) : Prop := ∀ c ∈ text, Text.isBlank c = true ∧ c ≠ '\n'

instance (text : List Char) : Decidable (Blanks text) := List.decidableBAll _ text

/-- An assignment as it may be written: the two numbers in decimal, with blanks in front of them and
between them, and behind them nothing, or a blank and anything else that fits on the line. -/
structure Written where
  assignment : Assignment
  front : List Char
  gap : List Char
  rest : List Char
  group_le : assignment.group ≤ wordMax
  server_le : assignment.server ≤ wordMax
  front_blanks : Blanks front
  gap_blanks : Blanks gap
  gap_ne_nil : gap ≠ []
  rest_apart : Text.StartsApart rest
  rest_line : '\n' ∉ rest

def Written.text (written : Written) : List Char :=
  written.front ++ (Nat.toDigits 10 written.assignment.group ++ (written.gap ++
    (Nat.toDigits 10 written.assignment.server ++ written.rest)))

/-- A line has fewer than two fields, or one of the first two spells no word. -/
def Malformed (line : List Char) : Prop :=
  (Text.fields line).length < 2 ∨
    ∃ field ∈ (Text.fields line).take 2, ¬ Decimal.SpellsWord field

instance (line : List Char) : Decidable (Malformed line) := inferInstanceAs (Decidable (_ ∨ _))

/-- A line of a solver's output. -/
inductive Line
  | assigns (written : Written)
  | junk (text : List Char) (line : '\n' ∉ text) (malformed : Malformed text)

def Line.text : Line → List Char
  | .assigns written => written.text
  | .junk text _ _ => text

/-- What a line says. -/
def Line.assignment? : Line → Option Assignment
  | .assigns written => some written.assignment
  | .junk _ _ _ => none

theorem Line.no_feed (line : Line) : '\n' ∉ line.text := by
  cases line with
  | junk text hline _ => exact hline
  | assigns written =>
      have hblanks : ∀ {text : List Char}, Blanks text → '\n' ∉ text :=
        fun h hmem => (h _ hmem).2 rfl
      have hdigits : ∀ n, '\n' ∉ Nat.toDigits 10 n := fun n hmem =>
        absurd (Decimal.isDigit_of_mem_toDigits hmem) (by decide)
      simp [Line.text, Written.text, hblanks written.front_blanks, hblanks written.gap_blanks,
        hdigits, written.rest_line]

theorem Written.fields_text (written : Written) :
    Text.fields written.text = Nat.toDigits 10 written.assignment.group ::
      Nat.toDigits 10 written.assignment.server :: Text.fields written.rest := by
  have hblank : ∀ {text : List Char}, Blanks text → ∀ c ∈ text, Text.isBlank c = true :=
    fun h c hc => (h c hc).1
  have hgap : Text.StartsApart
      (written.gap ++ (Nat.toDigits 10 written.assignment.server ++ written.rest)) := by
    intro c hc
    obtain ⟨first, more, hfirst⟩ := List.exists_cons_of_ne_nil written.gap_ne_nil
    refine hblank written.gap_blanks c ?_
    rw [hfirst] at hc ⊢
    obtain rfl : first = c := by simpa using hc
    exact List.mem_cons_self
  rw [Written.text, Text.fields_append_of_blanks (hblank written.front_blanks),
    Text.fields_append_of_field (Decimal.isField_toDigits _) hgap,
    Text.fields_append_of_blanks (hblank written.gap_blanks),
    Text.fields_append_of_field (Decimal.isField_toDigits _) written.rest_apart]

namespace Assignment

/-- A line is read as what it says. -/
theorem ofLine?_text (line : Line) : ofLine? line.text = line.assignment? := by
  cases line with
  | assigns written =>
      simp only [Line.text, ofLine?, written.fields_text,
        Decimal.readWord?_toDigits written.group_le, Decimal.readWord?_toDigits written.server_le]
      rfl
  | junk text _ hmalformed =>
      have hnone : ∀ {field}, ¬ Decimal.SpellsWord field → Decimal.readWord? field = none :=
        fun h => Option.not_isSome_iff_eq_none.mp ((Decimal.isSome_readWord?_iff _).not.mpr h)
      show ofLine? text = none
      unfold ofLine?
      split
      · next group server more heq =>
          simp only [Malformed, heq, List.length_cons, List.take_succ_cons, List.take_zero,
            List.mem_cons, List.not_mem_nil, or_false, exists_eq_or_imp, exists_eq_left] at hmalformed
          rcases hmalformed with hfew | hgroup | hserver
          · omega
          · rw [hnone hgroup]
          · rw [hnone hserver]
            cases Decimal.readWord? group <;> rfl
      · rfl

/-- A carriage return at the end of a line is blank. -/
theorem ofLine?_concat_return (line : List Char) : ofLine? (line ++ ['\r']) = ofLine? line := by
  rw [ofLine?, ofLine?, Text.fields_concat_of_blank (by decide)]

/-- What stands on both sides of a line feed is read independently. -/
theorem ofOutput_append_feed (front back : List Char) :
    ofOutput (front ++ '\n' :: back) = ofOutput front ++ ofOutput back := by
  rw [ofOutput, Text.lines, Text.pieces_append_break _ front back '\n' rfl, List.filterMap_append]
  rfl

theorem ofOutput_of_no_feed {line : List Char} (h : '\n' ∉ line) :
    ofOutput line = (ofLine? line).toList := by
  rw [ofOutput, Text.lines_of_no_feed h, List.filterMap_cons]
  cases ofLine? line <;> rfl

end Assignment

/-! ### Outputs -/

/-- How a line may end. -/
inductive Ending
  | feed
  | returnFeed

def Ending.text : Ending → List Char
  | .feed => ['\n']
  | .returnFeed => ['\r', '\n']

/-- A line that is ended. -/
structure EndedLine where
  line : Line
  ending : Ending

def EndedLine.text (ended : EndedLine) : List Char := ended.line.text ++ ended.ending.text

/-- Lines that are ended, and what follows the last end. -/
def outputText (ended : List EndedLine) (last : Line) : List Char :=
  ended.flatMap EndedLine.text ++ last.text

namespace Assignment

theorem ofOutput_ended (ended : EndedLine) (rest : List Char) :
    ofOutput (ended.text ++ rest) = ended.line.assignment?.toList ++ ofOutput rest := by
  obtain ⟨line, ending⟩ := ended
  cases ending with
  | feed =>
      show ofOutput ((line.text ++ ['\n']) ++ rest) = _
      rw [List.append_assoc, List.singleton_append, ofOutput_append_feed,
        ofOutput_of_no_feed line.no_feed, ofLine?_text]
  | returnFeed =>
      have hreturn : '\n' ∉ line.text ++ ['\r'] := by simp [line.no_feed]
      have hsplit : line.text ++ ['\r', '\n'] ++ rest = (line.text ++ ['\r']) ++ '\n' :: rest := by
        simp
      show ofOutput (line.text ++ ['\r', '\n'] ++ rest) = _
      rw [hsplit, ofOutput_append_feed, ofOutput_of_no_feed hreturn, ofLine?_concat_return,
        ofLine?_text]

/-- Reading goes line by line, and gives back all that the lines say, in order. -/
theorem ofOutput_written :
    (∀ front back, ofOutput (front ++ '\n' :: back) = ofOutput front ++ ofOutput back) ∧
      ∀ (ended : List EndedLine) (last : Line),
        ofOutput (outputText ended last) =
          (ended.map EndedLine.line ++ [last]).filterMap Line.assignment? := by
  refine ⟨ofOutput_append_feed, fun ended last => ?_⟩
  rw [outputText]
  induction ended with
  | nil =>
      rw [List.flatMap_nil, List.nil_append, ofOutput_of_no_feed last.no_feed, ofLine?_text,
        List.map_nil, List.nil_append, List.filterMap_cons]
      cases last.assignment? <;> rfl
  | cons first ended ih =>
      rw [List.flatMap_cons, List.append_assoc, ofOutput_ended, ih, List.map_cons, List.cons_append,
        List.filterMap_cons]
      cases first.line.assignment? <;> rfl

/-- The last of these lines has no end, and a carriage return behind the last field. -/
def mixed : List EndedLine × Line :=
  ([⟨.junk "solver: converged".toList (by decide) (by decide +kernel), .returnFeed⟩,
    ⟨.assigns {
        assignment := ⟨0, 4⟩, front := ['\t'], gap := [' ', ' '], rest := " at 0.5".toList
        group_le := by decide, server_le := by decide, front_blanks := by decide
        gap_blanks := by decide, gap_ne_nil := by decide, rest_apart := by decide
        rest_line := by decide }, .feed⟩,
    ⟨.junk [] (by decide) (by decide), .feed⟩,
    ⟨.junk "18446744073709551616 0".toList (by decide) (by decide +kernel), .returnFeed⟩],
    .assigns {
      assignment := ⟨18446744073709551615, 3⟩, front := [], gap := ['\u00a0'], rest := ['\r']
      group_le := by decide, server_le := by decide, front_blanks := by decide
      gap_blanks := by decide, gap_ne_nil := by decide, rest_apart := by decide
      rest_line := by decide })

/-- The largest word is read, and the number behind it is not. -/
theorem ofOutput_mixed :
    ofOutput ("solver: converged\r\n\t0  4 at 0.5\n\n18446744073709551616 0\r\n" ++
      "18446744073709551615\u00a03\r").toList = [⟨0, 4⟩, ⟨18446744073709551615, 3⟩] := by
  have htext : outputText mixed.1 mixed.2 =
      ("solver: converged\r\n\t0  4 at 0.5\n\n18446744073709551616 0\r\n" ++
        "18446744073709551615\u00a03\r").toList := by decide
  rw [← htext]
  exact ofOutput_written.2 mixed.1 mixed.2

end Assignment

end Solver

end StreamPlacement
