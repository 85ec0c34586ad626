/-!
Cutting text into lines and fields. A field is a longest run of characters that are not blank, and
blank means the Unicode property `White_Space`, which contains more than the characters that core's
class of whitespace knows.
-/

namespace StreamPlacement.Text

/-- The code points of the property `White_Space`, as inclusive ranges. -/
def blankRanges : List (Nat × Nat) :=
  [(0x09, 0x0d), (0x20, 0x20), (0x85, 0x85), (0xa0, 0xa0), (0x1680, 0x1680), (0x2000, 0x200a),
    (0x2028, 0x2029), (0x202f, 0x202f), (0x205f, 0x205f), (0x3000, 0x3000)]

/-- Whether a character has the property `White_Space`. -/
def isBlank (c : Char) : Bool := blankRanges.any fun range => range.1 ≤ c.toNat && c.toNat ≤ range.2

/-- The pieces between the characters that `isBreak` picks out: one more than there are breaks. -/
def pieces (isBreak : Char → Bool) : List Char → List (List Char)
  | [] => [[]]
  | c :: rest =>
    if isBreak c then [] :: pieces isBreak rest
    else match pieces isBreak rest with
      | [] => [[c]]
      | piece :: more => (c :: piece) :: more

/-- Lines end at a line feed. A carriage return in front of it is blank, so it never reaches a
field, and a last line without an end counts as one. -/
def lines (text : List Char) : List (List Char) := pieces (· == '\n') text

/-- The fields of a line, in order. -/
def fields (line : List Char) : List (List Char) := (pieces isBlank line).filter (!·.isEmpty)

theorem pieces_ne_nil (isBreak : Char → Bool) (text : List Char) : pieces isBreak text ≠ [] := by
  cases text with
  | nil => simp [pieces]
  | cons c rest =>
    unfold pieces
    split
    · simp
    · split <;> simp

/-- Text on both sides of a break is cut independently. -/
theorem pieces_append_break (isBreak : Char → Bool) (front back : List Char) (c : Char)
    (hc : isBreak c = true) :
    pieces isBreak (front ++ c :: back) = pieces isBreak front ++ pieces isBreak back := by
  induction front with
  | nil => simp [pieces, hc]
  | cons d front ih =>
    simp only [List.cons_append, pieces, ih]
    split
    · rfl
    · cases h : pieces isBreak front with
      | nil => exact absurd h (pieces_ne_nil isBreak front)
      | cons piece more => rfl

/-- Every character that core calls whitespace is blank. -/
theorem isBlank_of_isWhitespace (c : Char) (h : c.isWhitespace = true) : isBlank c = true := by
  simp only [Char.isWhitespace, Bool.or_eq_true, decide_eq_true_eq] at h
  rcases h with ((rfl | rfl) | rfl) | rfl <;> decide

example : (blankRanges.map fun range => range.2 + 1 - range.1).sum = 25 := by decide

end StreamPlacement.Text
