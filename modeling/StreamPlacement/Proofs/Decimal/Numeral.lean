import StreamPlacement.Decimal.Numeral
import StreamPlacement.Proofs.Arithmetic.NotANumber

/-!
What spells a number.

A decimal is worth a number, however many digits or whatever power of ten it has: what is too large
is infinite, and what is too small is zero. So only the word for what is not a number is read as it.
A whole number is read as a word only if it has no minus sign and is not too large.
-/

namespace StreamPlacement.Decimal

/-- A text spells what is not a number: an optional sign, and `nan` in any case. -/
def SpellsNaN (text : List Char) : Prop := (splitSign text).2.map Char.toLower = ['n', 'a', 'n']

instance (text : List Char) : Decidable (SpellsNaN text) := inferInstanceAs (Decidable (_ = _))

theorem isNaN_toFloat (d : Decimal) : ¬ d.toFloat.isNaN = true := by
  unfold toFloat
  -- The sign comes last.
  suffices hsize : ∀ size : Float, ¬ size.isNaN = true →
      ¬ (if d.negative then -size else size).isNaN = true by
    apply hsize
    split
    · exact of_decide_eq_false rfl
    next hdigits =>
    split
    · exact of_decide_eq_false rfl
    split
    · exact of_decide_eq_false rfl
    · exact Double.isNaN_ofScientific (Nat.pos_of_ne_zero hdigits) _ _
  intro size hsize
  split
  · exact Double.isNaN_neg hsize
  · exact hsize

theorem spellsNaN_iff (text : List Char) :
    SpellsNaN text ↔ String.ofList ((splitSign text).2.map Char.toLower) = "nan" :=
  String.ofList_inj.symm

/-- Of all that is read as a double, only the word for what is not a number is not a number. -/
theorem isNaN_iff_of_readFloat? {text : List Char} {x : Float} (h : readFloat? text = some x) :
    x.isNaN = true ↔ SpellsNaN text := by
  rw [spellsNaN_iff]
  unfold readFloat? at h
  dsimp only at h
  split at h
  · next hinfinite =>
      obtain rfl := Option.some.inj h
      have hnumber : ∀ negative : Bool,
          ¬ (if negative then -(1 / 0) else 1 / 0 : Float).isNaN = true := by decide +kernel
      refine iff_of_false (hnumber _) fun hword => ?_
      rw [hword] at hinfinite
      exact absurd hinfinite (by decide)
  split at h
  · next hword =>
      obtain rfl := Option.some.inj h
      exact iff_of_true (of_decide_eq_true rfl) hword
  · next hword =>
      obtain ⟨d, -, rfl⟩ := Option.map_eq_some_iff.mp h
      exact iff_of_false (isNaN_toFloat d) hword

/-! ### Whole numbers -/

/-- A text spells a whole number: an optional sign and at least one digit. -/
def SpellsInteger (text : List Char) : Prop :=
  (splitSign text).2 ≠ [] ∧ ∀ c ∈ (splitSign text).2, c.isDigit = true

instance (text : List Char) : Decidable (SpellsInteger text) :=
  decidable_of_iff ((!(splitSign text).2.isEmpty && (splitSign text).2.all Char.isDigit) = true)
    (by simp [SpellsInteger])

/-- The number that a text spells has no minus sign, and not more than 64 bits. -/
def FitsWord (text : List Char) : Prop :=
  (splitSign text).1 = false ∧ ofDigits (splitSign text).2 ≤ wordMax

/-- The whole numbers that are read as a word are those that fit into one. -/
theorem isSome_readWord?_iff (text : List Char) :
    (readWord? text).isSome = true ↔ SpellsInteger text ∧ FitsWord text := by
  have hdigits : ∀ digits : List Char,
      (if digits.isEmpty || !digits.all Char.isDigit then none
        else if ofDigits digits ≤ wordMax then some (ofDigits digits) else none).isSome = true ↔
      (digits ≠ [] ∧ ∀ c ∈ digits, c.isDigit = true) ∧ ofDigits digits ≤ wordMax := by
    intro digits
    by_cases hspells : digits ≠ [] ∧ ∀ c ∈ digits, c.isDigit = true
    · by_cases hfits : ofDigits digits ≤ wordMax <;> simp [hspells, hfits]
    · have hrefused : (digits.isEmpty || !digits.all Char.isDigit) = true := by
        by_contra hnot
        apply hspells
        simpa using hnot
      simp [hrefused, hspells]
  cases text with
  | nil => simp [readWord?, SpellsInteger, splitSign]
  | cons c rest =>
      by_cases hminus : c = '-'
      · subst hminus
        simp [readWord?, FitsWord, splitSign]
      · by_cases hplus : c = '+'
        · subst hplus
          simpa [readWord?, SpellsInteger, FitsWord, splitSign] using hdigits rest
        · have hsplit : splitSign (c :: rest) = (false, c :: rest) := by
            simp [splitSign, hminus, hplus]
          simpa [readWord?, SpellsInteger, FitsWord, hsplit, hplus] using hdigits (c :: rest)

/-! ### Written out -/

theorem ofDigits_toDigits (n : Nat) : ofDigits (Nat.toDigits 10 n) = n :=
  Nat.ofDigitChars_ten_toDigits

theorem isDigit_of_mem_toDigits {n : Nat} {c : Char} (h : c ∈ Nat.toDigits 10 n) :
    c.isDigit = true := Nat.isDigit_of_mem_toDigits (by decide) (by decide) h

/-- A word that is written out in decimal is read back. -/
theorem readWord?_toDigits {n : Nat} (h : n ≤ wordMax) : readWord? (Nat.toDigits 10 n) = some n := by
  have hall : (Nat.toDigits 10 n).all Char.isDigit = true :=
    List.all_eq_true.mpr fun _ hc => isDigit_of_mem_toDigits hc
  have hsome : (Nat.toDigits 10 n).isEmpty = false :=
    List.isEmpty_eq_false_iff.mpr Nat.toDigits_ne_nil
  unfold readWord?
  split
  · next rest heq =>
      -- No digit is a plus sign.
      exact absurd (isDigit_of_mem_toDigits (heq ▸ List.mem_cons_self)) (by decide)
  · simp [hall, hsome, ofDigits_toDigits, h]

end StreamPlacement.Decimal
