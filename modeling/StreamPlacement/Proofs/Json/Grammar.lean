import StreamPlacement.Json.Parse

/-!
What a text has to look like to spell a value.

The grammar says of a text which value it begins with and what is left of it. It allows every space
between tokens, every escape in a string and every form of a number, whichever of them a writer
prefers. A number ends where nothing follows that could belong to it. Whatever the grammar allows is
read as the value it spells.
-/

namespace StreamPlacement.Json

/-! ### Space -/

/-- A text that is space in front of another one. -/
def Blank (text rest : List Char) : Prop :=
  ∃ space : List Char, (∀ c ∈ space, isSpace c = true) ∧ text = space ++ rest

theorem Blank.refl (text : List Char) : Blank text text := ⟨[], by simp, rfl⟩

theorem Blank.length_le {text rest : List Char} (h : Blank text rest) :
    rest.length ≤ text.length := by
  obtain ⟨space, -, rfl⟩ := h
  rw [List.length_append]
  exact Nat.le_add_left ..

/-- A text that does not begin with space. -/
def Dense (text : List Char) : Prop := ∀ c ∈ text.head?, isSpace c = false

theorem skipSpace_of_dense {text : List Char} (h : Dense text) : skipSpace text = text := by
  cases text with
  | nil => rfl
  | cons c rest => exact List.dropWhile_cons_of_neg (by rw [h c rfl]; exact Bool.false_ne_true)

/-- All space is skipped. -/
theorem Blank.skipSpace_eq {text rest : List Char} (h : Blank text rest) (hrest : Dense rest) :
    skipSpace text = rest := by
  obtain ⟨space, hspace, rfl⟩ := h
  unfold skipSpace
  rw [List.dropWhile_append_of_pos hspace]
  exact skipSpace_of_dense hrest

/-! ### Strings -/

/-- The pieces of a string up to its closing quote. -/
inductive Quoted : List Char → List Piece → List Char → Prop
  | close (rest : List Char) : Quoted ('"' :: rest) [] rest
  | plain {text rest : List Char} {pieces : List Piece} (c : Char) (visible : 0x20 ≤ c.toNat)
      (quote : c ≠ '"') (backslash : c ≠ '\\') (more : Quoted text pieces rest) :
      Quoted (c :: text) (.char c :: pieces) rest
  | escape {text rest : List Char} {pieces : List Piece} (letter c : Char)
      (known : escaped? letter = some c) (more : Quoted text pieces rest) :
      Quoted ('\\' :: letter :: text) (.char c :: pieces) rest
  | unit {text rest : List Char} {pieces : List Piece} (a b c d : Char) (n : Nat)
      (hexadecimal : hexNumber? [a, b, c, d] = some n) (more : Quoted text pieces rest) :
      Quoted ('\\' :: 'u' :: a :: b :: c :: d :: text) (.unit n :: pieces) rest

theorem Quoted.length_lt {text rest : List Char} {pieces : List Piece}
    (h : Quoted text pieces rest) : rest.length < text.length := by
  induction h with
  | close => exact Nat.lt_succ_self _
  | plain c visible quote backslash more ih => exact Nat.lt_succ_of_lt ih
  | escape letter c known more ih => exact Nat.lt_succ_of_lt (Nat.lt_succ_of_lt ih)
  | unit a b c d n hexadecimal more ih =>
      simp only [List.length_cons]
      omega

theorem Quoted.quoted_eq {text rest : List Char} {pieces : List Piece}
    (h : Quoted text pieces rest) : quoted text = some (pieces, rest) := by
  induction h with
  | close => rfl
  | plain c visible quote backslash more ih =>
      rw [quoted, ih]
      · simp only [Bool.or_eq_true, decide_eq_true_eq, beq_iff_eq, backslash, or_false]
        rw [if_neg (Nat.not_lt.mpr visible)]
        rfl
      · exact quote
      · exact fun _ _ _ _ _ heq _ => backslash heq
      · exact fun _ _ heq _ => backslash heq
  | escape letter c known more ih =>
      rw [quoted, known, ih]
      · rfl
      · rintro _ _ _ _ _ rfl -
        cases known
  | unit a b c d n hexadecimal more ih =>
      rw [quoted, hexadecimal, ih]
      rfl

theorem Quoted.readString_eq {text rest : List Char} {pieces : List Piece}
    (h : Quoted text pieces rest) :
    readString text = some ((spell pieces).map String.ofList, rest) := by
  rw [readString, h.quoted_eq]
  rfl

/-! ### Numbers -/

/-- A run of digits that no other digit follows. -/
structure Digits (text digits rest : List Char) : Prop where
  text_eq : text = digits ++ rest
  ne_nil : digits ≠ []
  all : ∀ c ∈ digits, c.isDigit = true
  ends : ∀ c ∈ rest.head?, c.isDigit = false

/-- Digits in front of which there is no zero too many. -/
structure Whole (text digits rest : List Char) : Prop extends Digits text digits rest where
  leading : digits.head? = some '0' → digits.length = 1

/-- A minus sign, or none. -/
inductive Minus : List Char → Bool → List Char → Prop
  | minus (rest : List Char) : Minus ('-' :: rest) true rest
  | none (rest : List Char) (ends : ∀ c ∈ rest.head?, c ≠ '-') : Minus rest false rest

/-- A point and digits behind it, or neither. -/
inductive Fraction : List Char → Option (List Char) → List Char → Prop
  | digits {text digits rest : List Char} (behind : Digits text digits rest) :
      Fraction ('.' :: text) (some digits) rest
  | none (rest : List Char) (ends : ∀ c ∈ rest.head?, c ≠ '.') : Fraction rest none rest

/-- A sign in front of an exponent, or none. -/
inductive Sign : List Char → Bool → List Char → Prop
  | minus (rest : List Char) : Sign ('-' :: rest) true rest
  | plus (rest : List Char) : Sign ('+' :: rest) false rest
  | none (rest : List Char) (ends : ∀ c ∈ rest.head?, c ≠ '-' ∧ c ≠ '+') : Sign rest false rest

/-- A letter and the digits of an exponent behind it, or none of them. -/
inductive Exponent : List Char → Option Int → List Char → Prop
  | digits {text signless digits rest : List Char} {negative : Bool} (letter : Char)
      (known : letter = 'e' ∨ letter = 'E') (sign : Sign text negative signless)
      (behind : Digits signless digits rest) :
      Exponent (letter :: text)
        (some (if negative then -(Decimal.ofDigits digits : Int) else Decimal.ofDigits digits)) rest
  | none (rest : List Char) (ends : ∀ c ∈ rest.head?, c ≠ 'e' ∧ c ≠ 'E') : Exponent rest none rest

/-- What the parts of a number stand for. -/
def numberOf (negative : Bool) (whole : List Char) (fraction : Option (List Char))
    (exponent : Option Int) : Json :=
  if !negative && fraction.isNone && exponent.isNone then .natural (Decimal.ofDigits whole)
  else .decimal ⟨negative, Decimal.ofDigits (whole ++ fraction.getD []),
    exponent.getD 0 - (fraction.getD []).length⟩

/-- A number. -/
inductive Number : List Char → Json → List Char → Prop
  | parts {text signless digits behindWhole behindFraction rest : List Char} {negative : Bool}
      {fraction : Option (List Char)} {exponent : Option Int} (minus : Minus text negative signless)
      (whole : Whole signless digits behindWhole)
      (behindPoint : Fraction behindWhole fraction behindFraction)
      (behindLetter : Exponent behindFraction exponent rest) :
      Number text (numberOf negative digits fraction exponent) rest

theorem Digits.splitDigits_eq {text digits rest : List Char} (h : Digits text digits rest) :
    Decimal.splitDigits text = (digits, rest) := by
  have hrest : rest.takeWhile Char.isDigit = [] ∧ rest.dropWhile Char.isDigit = rest := by
    cases rest with
    | nil => exact ⟨rfl, rfl⟩
    | cons c more =>
        have hc : ¬ c.isDigit = true := by
          rw [h.ends c rfl]
          exact Bool.false_ne_true
        exact ⟨List.takeWhile_cons_of_neg hc, List.dropWhile_cons_of_neg hc⟩
  rw [Decimal.splitDigits, h.text_eq, List.takeWhile_append_of_pos h.all,
    List.dropWhile_append_of_pos h.all, hrest.1, hrest.2, List.append_nil]

theorem Digits.digitsAfter_eq {text digits rest : List Char} (h : Digits text digits rest) :
    digitsAfter text = some (digits, rest) := by
  unfold digitsAfter
  rw [h.splitDigits_eq]
  cases digits with
  | nil => exact absurd rfl h.ne_nil
  | cons c more => rfl

theorem Fraction.readFraction_eq {text rest : List Char} {fraction : Option (List Char)}
    (h : Fraction text fraction rest) : readFraction text = some (fraction, rest) := by
  cases h with
  | digits behind =>
      rw [readFraction, behind.digitsAfter_eq]
      rfl
  | none _ ends =>
      unfold readFraction
      split
      · exact absurd rfl (ends '.' rfl)
      · rfl

theorem Sign.splitSign_eq {text rest : List Char} {negative : Bool}
    (h : Sign text negative rest) : Decimal.splitSign text = (negative, rest) := by
  cases h with
  | minus => rfl
  | plus => rfl
  | none _ ends =>
      unfold Decimal.splitSign
      split
      · exact absurd rfl (ends '-' rfl).1
      · exact absurd rfl (ends '+' rfl).2
      · rfl

theorem Exponent.readExponent_eq {text rest : List Char} {exponent : Option Int}
    (h : Exponent text exponent rest) : readExponent text = some (exponent, rest) := by
  cases h with
  | digits letter known sign behind =>
      have hletter : (letter == 'e' || letter == 'E') = true := by
        rcases known with rfl | rfl <;> rfl
      rw [readExponent, if_pos hletter, sign.splitSign_eq]
      dsimp only
      rw [behind.digitsAfter_eq]
      rfl
  | none _ ends =>
      cases text with
      | nil => rfl
      | cons c more =>
          have hc : ¬ (c == 'e' || c == 'E') = true := by
            simpa [Bool.or_eq_true] using ends c rfl
          rw [readExponent, if_neg hc]

/-- A number whose first digit is zero has one digit in front of the point. -/
theorem Whole.not_leading {text digits rest : List Char} (h : Whole text digits rest) :
    ¬ (digits.head? == some '0' && decide (1 < digits.length)) = true := by
  rw [Bool.and_eq_true, beq_iff_eq, decide_eq_true_eq]
  rintro ⟨hzero, hlong⟩
  have := h.leading hzero
  omega

theorem Number.readNumber_eq {text rest : List Char} {value : Json}
    (h : Number text value rest) : readNumber text = some (value, rest) := by
  cases h with
  | parts minus whole behindPoint behindLetter =>
      unfold readNumber
      cases minus with
      | minus =>
          simp only [whole.digitsAfter_eq, Option.bind_eq_bind, Option.bind_some, whole.not_leading,
            behindPoint.readFraction_eq, behindLetter.readExponent_eq, numberOf]
          rw [if_neg Bool.false_ne_true]
          split <;> rfl
      | none _ ends =>
          have hsignless : ∀ more, text = '-' :: more → False := by
            rintro more rfl
            exact ends '-' rfl rfl
          simp only [whole.digitsAfter_eq, Option.bind_eq_bind, Option.bind_some, whole.not_leading,
            behindPoint.readFraction_eq, behindLetter.readExponent_eq, numberOf]
          rw [if_neg Bool.false_ne_true]
          split <;> rfl

/-! ### Values -/

mutual

/-- A value at the front of a text. -/
inductive Spelled : List Char → Json → List Char → Prop
  | nullWord (rest : List Char) : Spelled ('n' :: 'u' :: 'l' :: 'l' :: rest) .null rest
  | trueWord (rest : List Char) : Spelled ('t' :: 'r' :: 'u' :: 'e' :: rest) (.bool true) rest
  | falseWord (rest : List Char) :
      Spelled ('f' :: 'a' :: 'l' :: 's' :: 'e' :: rest) (.bool false) rest
  | number {text rest : List Char} {value : Json} (number : Number text value rest) :
      Spelled text value rest
  | string {text rest : List Char} {pieces : List Piece} (quoted : Quoted text pieces rest) :
      Spelled ('"' :: text) (.string ((spell pieces).map String.ofList)) rest
  | emptyArray {text rest : List Char} (space : Blank text (']' :: rest)) :
      Spelled ('[' :: text) (.array []) rest
  | array {text rest : List Char} {items : List Json} (listed : ItemsSpelled text items rest) :
      Spelled ('[' :: text) (.array items) rest
  | emptyObject {text rest : List Char} (space : Blank text ('\x7d' :: rest)) :
      Spelled ('\x7b' :: text) (.object []) rest
  | object {text rest : List Char} {members : List (Option String × Json)}
      (listed : MembersSpelled text members rest) :
      Spelled ('\x7b' :: text) (.object members) rest

/-- The items of an array up to its closing bracket, at least one. -/
inductive ItemsSpelled : List Char → List Json → List Char → Prop
  | last {text item behind rest : List Char} {value : Json} (before : Blank text item)
      (spelled : Spelled item value behind) (after : Blank behind (']' :: rest)) :
      ItemsSpelled text [value] rest
  | more {text item behind others rest : List Char} {value : Json} {values : List Json}
      (before : Blank text item) (spelled : Spelled item value behind)
      (after : Blank behind (',' :: others)) (listed : ItemsSpelled others values rest) :
      ItemsSpelled text (value :: values) rest

/-- The members of an object up to its closing brace, at least one. -/
inductive MembersSpelled : List Char → List (Option String × Json) → List Char → Prop
  | last {text name behindName colon item behind rest : List Char} {pieces : List Piece}
      {value : Json} (before : Blank text ('"' :: name)) (quoted : Quoted name pieces behindName)
      (between : Blank behindName (':' :: colon)) (behindColon : Blank colon item)
      (spelled : Spelled item value behind) (after : Blank behind ('\x7d' :: rest)) :
      MembersSpelled text [((spell pieces).map String.ofList, value)] rest
  | more {text name behindName colon item behind others rest : List Char} {pieces : List Piece}
      {value : Json} {values : List (Option String × Json)} (before : Blank text ('"' :: name))
      (quoted : Quoted name pieces behindName) (between : Blank behindName (':' :: colon))
      (behindColon : Blank colon item) (spelled : Spelled item value behind)
      (after : Blank behind (',' :: others)) (listed : MembersSpelled others values rest) :
      MembersSpelled text (((spell pieces).map String.ofList, value) :: values) rest

end

/-- A text that spells a value, with nothing but space around it. -/
def Spells (text : List Char) (value : Json) : Prop :=
  ∃ front back, Blank text front ∧ Spelled front value back ∧ Blank back []

/-! ### Reading what is spelled -/

theorem Whole.length_lt {text digits rest : List Char} (h : Whole text digits rest) :
    rest.length < text.length := by
  rw [h.text_eq, List.length_append]
  exact Nat.lt_add_of_pos_left (List.length_pos_iff.mpr h.ne_nil)

theorem Digits.length_le {text digits rest : List Char} (h : Digits text digits rest) :
    rest.length ≤ text.length := by
  rw [h.text_eq, List.length_append]
  exact Nat.le_add_left ..

theorem Minus.length_le {text rest : List Char} {negative : Bool}
    (h : Minus text negative rest) : rest.length ≤ text.length := by
  cases h with
  | minus => exact Nat.le_succ _
  | none => exact Nat.le_refl _

theorem Fraction.length_le {text rest : List Char} {fraction : Option (List Char)}
    (h : Fraction text fraction rest) : rest.length ≤ text.length := by
  cases h with
  | digits behind => exact Nat.le_succ_of_le behind.length_le
  | none => exact Nat.le_refl _

theorem Sign.length_le {text rest : List Char} {negative : Bool}
    (h : Sign text negative rest) : rest.length ≤ text.length := by
  cases h with
  | minus => exact Nat.le_succ _
  | plus => exact Nat.le_succ _
  | none => exact Nat.le_refl _

theorem Exponent.length_le {text rest : List Char} {exponent : Option Int}
    (h : Exponent text exponent rest) : rest.length ≤ text.length := by
  cases h with
  | digits letter known sign behind =>
      exact Nat.le_succ_of_le (Nat.le_trans behind.length_le sign.length_le)
  | none => exact Nat.le_refl _

theorem Number.length_lt {text rest : List Char} {value : Json} (h : Number text value rest) :
    rest.length < text.length := by
  cases h with
  | parts minus whole behindPoint behindLetter =>
      have hminus := minus.length_le
      have hwhole := whole.length_lt
      have hfraction := behindPoint.length_le
      have hexponent := behindLetter.length_le
      omega

mutual

theorem Spelled.length_lt {text rest : List Char} {value : Json} (h : Spelled text value rest) :
    rest.length < text.length := by
  cases h with
  | nullWord => simp only [List.length_cons]; omega
  | trueWord => simp only [List.length_cons]; omega
  | falseWord => simp only [List.length_cons]; omega
  | number number => exact number.length_lt
  | string quoted => exact Nat.lt_succ_of_lt quoted.length_lt
  | emptyArray space => exact Nat.lt_succ_of_lt space.length_le
  | array listed => exact Nat.lt_succ_of_lt listed.length_lt
  | emptyObject space => exact Nat.lt_succ_of_lt space.length_le
  | object listed => exact Nat.lt_succ_of_lt listed.length_lt

theorem ItemsSpelled.length_lt {text rest : List Char} {values : List Json}
    (h : ItemsSpelled text values rest) : rest.length < text.length := by
  cases h with
  | last before spelled after =>
      have hbefore := before.length_le
      have hitem := spelled.length_lt
      have hafter := after.length_le
      simp only [List.length_cons] at hafter
      omega
  | more before spelled after listed =>
      have hbefore := before.length_le
      have hitem := spelled.length_lt
      have hafter := after.length_le
      have hlisted := listed.length_lt
      simp only [List.length_cons] at hafter
      omega

theorem MembersSpelled.length_lt {text rest : List Char} {values : List (Option String × Json)}
    (h : MembersSpelled text values rest) : rest.length < text.length := by
  cases h with
  | last before quoted between behindColon spelled after =>
      have hbefore := before.length_le
      have hname := quoted.length_lt
      have hbetween := between.length_le
      have hcolon := behindColon.length_le
      have hitem := spelled.length_lt
      have hafter := after.length_le
      simp only [List.length_cons] at hbefore hbetween hafter
      omega
  | more before quoted between behindColon spelled after listed =>
      have hbefore := before.length_le
      have hname := quoted.length_lt
      have hbetween := between.length_le
      have hcolon := behindColon.length_le
      have hitem := spelled.length_lt
      have hafter := after.length_le
      have hlisted := listed.length_lt
      simp only [List.length_cons] at hbefore hbetween hafter
      omega

end

/-- A number begins with a minus sign or a digit. -/
theorem Number.head_cases {text rest : List Char} {value : Json} (h : Number text value rest) :
    ∃ c more, text = c :: more ∧ (c = '-' ∨ c.isDigit = true) := by
  cases h with
  | parts minus whole behindPoint behindLetter =>
      cases minus with
      | minus => exact ⟨'-', _, rfl, .inl rfl⟩
      | none =>
          obtain ⟨c, more, hdigits⟩ := List.exists_cons_of_ne_nil whole.ne_nil
          have htext := whole.text_eq
          rw [hdigits] at htext
          exact ⟨c, _, htext, .inr (whole.all c (hdigits ▸ List.mem_cons_self))⟩

/-- A value begins neither with space nor with a closing bracket or brace. -/
theorem Spelled.head_cases {text rest : List Char} {value : Json} (h : Spelled text value rest) :
    ∃ c more, text = c :: more ∧ isSpace c = false ∧ c ≠ ']' ∧ c ≠ '\x7d' := by
  cases h with
  | nullWord => exact ⟨_, _, rfl, by decide⟩
  | trueWord => exact ⟨_, _, rfl, by decide⟩
  | falseWord => exact ⟨_, _, rfl, by decide⟩
  | string => exact ⟨_, _, rfl, by decide⟩
  | emptyArray => exact ⟨_, _, rfl, by decide⟩
  | array => exact ⟨_, _, rfl, by decide⟩
  | emptyObject => exact ⟨_, _, rfl, by decide⟩
  | object => exact ⟨_, _, rfl, by decide⟩
  | number number =>
      obtain ⟨c, more, rfl, rfl | hdigit⟩ := number.head_cases
      · exact ⟨_, _, rfl, by decide⟩
      · refine ⟨c, more, rfl, ?_, ?_, ?_⟩
        · rw [← Bool.not_eq_true]
          intro hspace
          simp only [isSpace, Bool.or_eq_true, beq_iff_eq] at hspace
          rcases hspace with ((rfl | rfl) | rfl) | rfl <;> exact absurd hdigit (by decide)
        · rintro rfl
          exact absurd hdigit (by decide)
        · rintro rfl
          exact absurd hdigit (by decide)

theorem Spelled.dense {text rest : List Char} {value : Json} (h : Spelled text value rest) :
    Dense text := by
  obtain ⟨c, more, rfl, hspace, -⟩ := h.head_cases
  rintro _ ⟨⟩
  exact hspace

theorem dense_cons {c : Char} (h : isSpace c = false) (rest : List Char) : Dense (c :: rest) := by
  rintro _ ⟨⟩
  exact h

/-- Items do not begin with a closing bracket. -/
theorem ItemsSpelled.skipSpace_ne {text rest more : List Char} {values : List Json}
    (h : ItemsSpelled text values rest) : skipSpace text ≠ ']' :: more := by
  have hitem : ∀ {item behind : List Char} {value : Json}, Blank text item →
      Spelled item value behind → skipSpace text ≠ ']' :: more := by
    intro item behind value before spelled
    rw [before.skipSpace_eq spelled.dense]
    obtain ⟨c, _, rfl, -, hne, -⟩ := spelled.head_cases
    exact fun heq => hne (List.cons.inj heq).1
  cases h with
  | last before spelled after => exact hitem before spelled
  | more before spelled after listed => exact hitem before spelled

/-- Members begin with the quote of a name. -/
theorem MembersSpelled.skipSpace_eq {text rest : List Char} {values : List (Option String × Json)}
    (h : MembersSpelled text values rest) : ∃ more, skipSpace text = '"' :: more := by
  cases h with
  | last before => exact ⟨_, before.skipSpace_eq (dense_cons (by decide) _)⟩
  | more before => exact ⟨_, before.skipSpace_eq (dense_cons (by decide) _)⟩

mutual

/-- A value is read as it is spelled, with twice as much fuel as it has characters. -/
theorem Spelled.readValue_eq {front text rest : List Char} {value : Json}
    (h : Spelled text value rest) (hfront : Blank front text) (fuel : Nat)
    (hfuel : 2 * text.length ≤ fuel + 2 * rest.length) :
    readValue fuel front = some (value, rest) := by
  have hlength := h.length_lt
  obtain ⟨fuel, rfl⟩ : ∃ n, fuel = n + 1 := ⟨fuel - 1, by omega⟩
  rw [readValue, hfront.skipSpace_eq h.dense]
  cases h with
  | nullWord => rfl
  | trueWord => rfl
  | falseWord => rfl
  | string quoted =>
      simp only [quoted.readString_eq]
      rfl
  | emptyArray space => simp only [space.skipSpace_eq (dense_cons (by decide) _)]
  | array listed =>
      rw [List.length_cons] at hfuel
      simp only [listed.readItems_eq fuel (by omega)]
      split
      · next heq => exact absurd heq listed.skipSpace_ne
      · rfl
  | emptyObject space => simp only [space.skipSpace_eq (dense_cons (by decide) _)]
  | object listed =>
      rw [List.length_cons] at hfuel
      obtain ⟨more, hskip⟩ := listed.skipSpace_eq
      simp only [listed.readMembers_eq fuel (by omega), hskip]
      rfl
  | number number =>
      obtain ⟨c, more, rfl, hc⟩ := number.head_cases
      have hne : ∀ d : Char, d.isDigit = false → d ≠ '-' → c ≠ d := by
        rintro d hdigit hminus rfl
        rcases hc with rfl | hc
        · exact hminus rfl
        · rw [hdigit] at hc
          cases hc
      -- A number begins like none of the other values, so it is the last case that is met.
      split
      · next heq => exact absurd (List.cons.inj heq).1 (hne 'n' (by decide) (by decide))
      · next heq => exact absurd (List.cons.inj heq).1 (hne 't' (by decide) (by decide))
      · next heq => exact absurd (List.cons.inj heq).1 (hne 'f' (by decide) (by decide))
      · next heq => exact absurd (List.cons.inj heq).1 (hne '"' (by decide) (by decide))
      · next heq => exact absurd (List.cons.inj heq).1 (hne '[' (by decide) (by decide))
      · next heq => exact absurd (List.cons.inj heq).1 (hne '\x7b' (by decide) (by decide))
      · exact number.readNumber_eq

theorem ItemsSpelled.readItems_eq {text rest : List Char} {values : List Json}
    (h : ItemsSpelled text values rest) (fuel : Nat)
    (hfuel : 2 * text.length ≤ fuel + 2 * rest.length) :
    readItems fuel text = some (values, rest) := by
  have hlength := h.length_lt
  obtain ⟨fuel, rfl⟩ : ∃ n, fuel = n + 1 := ⟨fuel - 1, by omega⟩
  rw [readItems]
  cases h with
  | last before spelled after =>
      have hbefore := before.length_le
      have hafter := after.length_le
      simp only [List.length_cons] at hafter
      simp only [spelled.readValue_eq before fuel (by omega),
        after.skipSpace_eq (dense_cons (by decide) _)]
  | more before spelled after listed =>
      have hbefore := before.length_le
      have hitem := spelled.length_lt
      have hafter := after.length_le
      have hlisted := listed.length_lt
      simp only [List.length_cons] at hafter
      simp only [spelled.readValue_eq before fuel (by omega),
        after.skipSpace_eq (dense_cons (by decide) _), listed.readItems_eq fuel (by omega)]
      rfl

theorem MembersSpelled.readMembers_eq {text rest : List Char}
    {values : List (Option String × Json)} (h : MembersSpelled text values rest) (fuel : Nat)
    (hfuel : 2 * text.length ≤ fuel + 2 * rest.length) :
    readMembers fuel text = some (values, rest) := by
  have hlength := h.length_lt
  obtain ⟨fuel, rfl⟩ : ∃ n, fuel = n + 1 := ⟨fuel - 1, by omega⟩
  rw [readMembers]
  cases h with
  | last before quoted between behindColon spelled after =>
      have hbefore := before.length_le
      have hname := quoted.length_lt
      have hbetween := between.length_le
      have hcolon := behindColon.length_le
      have hafter := after.length_le
      simp only [List.length_cons] at hbefore hbetween hafter
      simp only [before.skipSpace_eq (dense_cons (by decide) _), quoted.readString_eq,
        between.skipSpace_eq (dense_cons (by decide) _),
        spelled.readValue_eq behindColon fuel (by omega),
        after.skipSpace_eq (dense_cons (by decide) _)]
  | more before quoted between behindColon spelled after listed =>
      have hbefore := before.length_le
      have hname := quoted.length_lt
      have hbetween := between.length_le
      have hcolon := behindColon.length_le
      have hitem := spelled.length_lt
      have hafter := after.length_le
      have hlisted := listed.length_lt
      simp only [List.length_cons] at hbefore hbetween hafter
      simp only [before.skipSpace_eq (dense_cons (by decide) _), quoted.readString_eq,
        between.skipSpace_eq (dense_cons (by decide) _),
        spelled.readValue_eq behindColon fuel (by omega),
        after.skipSpace_eq (dense_cons (by decide) _), listed.readMembers_eq fuel (by omega)]
      rfl

end

/-- What a text spells is read from it. -/
theorem Spells.parse?_eq {text : List Char} {value : Json} (h : Spells text value) :
    parse? text = some value := by
  obtain ⟨front, back, hfront, hspelled, hback⟩ := h
  have hlength := hfront.length_le
  unfold parse?
  rw [hspelled.readValue_eq hfront _ (by omega)]
  dsimp only
  rw [hback.skipSpace_eq (by rintro _ ⟨⟩)]
  rfl

end StreamPlacement.Json
