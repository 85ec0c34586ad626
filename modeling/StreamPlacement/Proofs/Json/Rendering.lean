import Mathlib.Data.List.Basic
import StreamPlacement.Json.Render
import StreamPlacement.Proofs.Decimal.Numeral
import StreamPlacement.Proofs.Json.Grammar

/-!
What is written spells what was to be written, in every style that sets the parts of a document
apart by space alone. So values without decimals, all of whose strings are text, are read back as they
are.
-/

namespace StreamPlacement.Json

/-! ### Strings -/

/-- The characters that are written as a backslash and a letter. -/
def lettered : List (Char × Char) :=
  [('"', '"'), ('\\', '\\'), ('\x08', 'b'), ('\x0c', 'f'), ('\n', 'n'), ('\r', 'r'), ('\t', 't')]

/-- The piece that a character is written as: a control character without a letter is a unit. -/
def pieceOf (c : Char) : Piece :=
  if c.toNat < 0x20 ∧ c ∉ lettered.map Prod.fst then .unit c.toNat else .char c

theorem escape_lettered :
    ∀ pair ∈ lettered, escape pair.1 = ['\\', pair.2] ∧ escaped? pair.2 = some pair.1 := by
  decide

theorem escape_of_not_mem {c : Char} (h : c ∉ lettered.map Prod.fst) :
    escape c =
      if c.toNat < 0x20 then ['\\', 'u', '0', '0', hexDigit (c.toNat / 16), hexDigit (c.toNat % 16)]
      else [c] := by
  simp only [lettered, List.map_cons, List.map_nil, List.mem_cons, List.not_mem_nil, or_false,
    not_or] at h
  simp [escape, h]

theorem hexNumber?_control :
    ∀ n < 0x20, hexNumber? ['0', '0', hexDigit (n / 16), hexDigit (n % 16)] = some n := by
  decide

theorem quoted_escape {text rest : List Char} {pieces : List Piece} (c : Char)
    (h : Quoted text pieces rest) : Quoted (escape c ++ text) (pieceOf c :: pieces) rest := by
  by_cases hletter : c ∈ lettered.map Prod.fst
  · obtain ⟨pair, hpair, rfl⟩ := List.mem_map.mp hletter
    obtain ⟨hescape, hknown⟩ := escape_lettered pair hpair
    rw [hescape, pieceOf, if_neg fun hcontrol => hcontrol.2 hletter]
    exact .escape _ _ hknown h
  · rw [escape_of_not_mem hletter, pieceOf]
    by_cases hcontrol : c.toNat < 0x20
    · rw [if_pos hcontrol, if_pos ⟨hcontrol, hletter⟩]
      exact .unit _ _ _ _ _ (hexNumber?_control _ hcontrol) h
    · rw [if_neg hcontrol, if_neg fun hunit => hcontrol hunit.1]
      refine .plain c (Nat.not_lt.mp hcontrol) ?_ ?_ h
      · rintro rfl
        exact hletter (by decide)
      · rintro rfl
        exact hletter (by decide)

theorem quoted_flatMap (chars rest : List Char) :
    Quoted (chars.flatMap escape ++ '"' :: rest) (chars.map pieceOf) rest := by
  induction chars with
  | nil => exact .close rest
  | cons c more ih =>
      rw [List.flatMap_cons, List.append_assoc]
      exact quoted_escape c ih

theorem spell_pieceOf (chars : List Char) : spell (chars.map pieceOf) = some chars := by
  induction chars with
  | nil => rfl
  | cons c more ih =>
      rw [List.map_cons, pieceOf]
      split
      · next hcontrol =>
          have hhigh : isHighSurrogate c.toNat = false := by
            rw [isHighSurrogate, Bool.and_eq_false_iff, decide_eq_false_iff_not]
            omega
          have hlow : isLowSurrogate c.toNat = false := by
            rw [isLowSurrogate, Bool.and_eq_false_iff, decide_eq_false_iff_not]
            omega
          unfold spell
          simp only [hhigh, hlow, ih, Char.ofNat_toNat]
          rfl
      · rw [spell, ih]
        rfl

theorem spell_toList (text : String) :
    (spell (text.toList.map pieceOf)).map String.ofList = some text := by
  rw [spell_pieceOf, Option.map_some, String.ofList_toList]

/-- A text between quotes is spelled by its pieces. -/
theorem spelled_quote (text : String) (rest : List Char) :
    Spelled (quote text ++ rest) (.string (some text)) rest := by
  have hspelled := Spelled.string (quoted_flatMap text.toList rest)
  rw [spell_toList] at hspelled
  rwa [quote, List.cons_append, List.cons_append, List.append_assoc]

/-! ### Numbers -/

/-- Nothing that could belong to a number. -/
def Ends (text : List Char) : Prop :=
  ∀ c ∈ text.head?, c.isDigit = false ∧ c ≠ '.' ∧ c ≠ 'e' ∧ c ≠ 'E'

/-- Only zero is written with a zero in front. -/
theorem head?_toDigits {n : Nat} (h : (Nat.toDigits 10 n).head? = some '0') : n = 0 := by
  induction n using Nat.strongRecOn with
  | ind n ih =>
      rcases Nat.lt_or_ge n 10 with hlt | hge
      · rw [Nat.toDigits_of_lt_base hlt] at h
        have hall : ∀ m < 10, m.digitChar = '0' → m = 0 := by decide
        exact hall n hlt (Option.some.inj h)
      · rw [Nat.toDigits_of_base_le (by decide) hge,
          List.head?_append_of_ne_nil _ Nat.toDigits_ne_nil] at h
        have := ih (n / 10) (by omega) h
        omega

theorem whole_toDigits (n : Nat) {rest : List Char} (h : Ends rest) :
    Whole (Nat.toDigits 10 n ++ rest) (Nat.toDigits 10 n) rest where
  text_eq := rfl
  ne_nil := Nat.toDigits_ne_nil
  all _ hc := Decimal.isDigit_of_mem_toDigits hc
  ends c hc := (h c hc).1
  leading hzero := by rw [head?_toDigits hzero]; rfl

theorem spelled_natural (n : Nat) {rest : List Char} (h : Ends rest) :
    Spelled ((Nat.repr n).toList ++ rest) (.natural n) rest := by
  have hwhole := whole_toDigits n h
  rw [Nat.toList_repr]
  have hsignless : Minus (Nat.toDigits 10 n ++ rest) false (Nat.toDigits 10 n ++ rest) := by
    refine .none _ fun c hc => ?_
    rw [List.head?_append_of_ne_nil _ Nat.toDigits_ne_nil] at hc
    have hdigit := Decimal.isDigit_of_mem_toDigits (List.mem_of_mem_head? hc)
    rintro rfl
    cases hdigit
  have hnumber := Number.parts hsignless hwhole (.none _ fun c hc => (h c hc).2.1)
    (.none _ fun c hc => (h c hc).2.2)
  have hvalue : numberOf false (Nat.toDigits 10 n) none none = .natural n :=
    congrArg Json.natural (Decimal.ofDigits_toDigits n)
  rw [hvalue] at hnumber
  exact .number hnumber

/-! ### Values -/

mutual

/-- A value without decimals, all of whose strings are text. -/
def Plain : Json → Prop
  | .decimal _ => False
  | .string text => text.isSome = true
  | .array items => ArePlain items
  | .object members => MembersArePlain members
  | _ => True

def ArePlain : List Json → Prop
  | [] => True
  | item :: rest => Plain item ∧ ArePlain rest

def MembersArePlain : List (Option String × Json) → Prop
  | [] => True
  | (name, value) :: rest => name.isSome = true ∧ Plain value ∧ MembersArePlain rest

end

/-- A style that sets parts apart by space alone. -/
structure Style.Spaced (style : Style) : Prop where
  breakAt : ∀ depth, ∀ c ∈ style.breakAt depth, isSpace c = true
  afterColon : ∀ c ∈ style.afterColon, isSpace c = true

theorem spaced_compact : Style.compact.Spaced where
  breakAt _ _ hc := nomatch hc
  afterColon _ hc := nomatch hc

theorem blank_append {space : List Char} (h : ∀ c ∈ space, isSpace c = true)
    (text : List Char) : Blank (space ++ text) text := ⟨space, h, rfl⟩

theorem ends_cons {c : Char} (h : c.isDigit = false ∧ c ≠ '.' ∧ c ≠ 'e' ∧ c ≠ 'E')
    (rest : List Char) : Ends (c :: rest) := by
  rintro _ ⟨⟩
  exact h

theorem ends_of_blank {space : List Char} (h : ∀ c ∈ space, isSpace c = true) {rest : List Char}
    (hrest : Ends rest) : Ends (space ++ rest) := by
  cases space with
  | nil => exact hrest
  | cons c more =>
      have hc := h c List.mem_cons_self
      simp only [isSpace, Bool.or_eq_true, beq_iff_eq] at hc
      rcases hc with ((rfl | rfl) | rfl) | rfl <;> exact ends_cons (by decide) _

variable {style : Style}

/-- What stands between the brackets of an array or an object. -/
def body (style : Style) (depth : Nat) (closing : Char) (items : List (List Char)) : List Char :=
  [','].intercalate (items.map (style.breakAt (depth + 1) ++ ·)) ++ style.breakAt depth ++ [closing]

theorem body_last (depth : Nat) (closing : Char) (item rest : List Char) :
    body style depth closing [item] ++ rest =
      style.breakAt (depth + 1) ++ (item ++ (style.breakAt depth ++ closing :: rest)) := by
  simp [body]

theorem body_more (depth : Nat) (closing : Char) (item next : List Char) (items : List (List Char))
    (rest : List Char) :
    body style depth closing (item :: next :: items) ++ rest =
      style.breakAt (depth + 1) ++
        (item ++ ',' :: (body style depth closing (next :: items) ++ rest)) := by
  simp [body, List.intercalate_cons_cons]

/-- A member begins with its name between quotes, and its value stands behind the colon. -/
theorem member_append (name : String) (value rest : List Char) :
    quote name ++ ':' :: style.afterColon ++ value ++ rest =
      '"' :: (name.toList.flatMap escape ++
        '"' :: ':' :: (style.afterColon ++ (value ++ rest))) := by
  simp [quote]

mutual

/-- A value is spelled as it is written, wherever its number cannot go on. -/
theorem spelled_render (hstyle : style.Spaced) (depth : Nat) (value : Json) (h : Plain value)
    {rest : List Char} (hrest : Ends rest) :
    Spelled (render style depth value ++ rest) value rest := by
  match value with
  | .null => exact .nullWord rest
  | .bool true => exact .trueWord rest
  | .bool false => exact .falseWord rest
  | .natural n => exact spelled_natural n hrest
  | .decimal d => exact h.elim
  | .string text =>
      obtain ⟨text, rfl⟩ := Option.isSome_iff_exists.mp h
      exact spelled_quote text rest
  | .array [] => exact .emptyArray (.refl _)
  | .array (item :: items) =>
      exact .array (itemsSpelled_render hstyle depth (item :: items) (by simp) h rest)
  | .object [] => exact .emptyObject (.refl _)
  | .object (member :: members) =>
      exact .object (membersSpelled_render hstyle depth (member :: members) (by simp) h rest)

theorem itemsSpelled_render (hstyle : style.Spaced) (depth : Nat) (items : List Json)
    (hne : items ≠ []) (h : ArePlain items) (rest : List Char) :
    ItemsSpelled (body style depth ']' (renderItems style (depth + 1) items) ++ rest)
      items rest := by
  have hbefore := blank_append (hstyle.breakAt (depth + 1))
  have hafter := hstyle.breakAt depth
  match items with
  | [item] =>
      rw [renderItems, renderItems, body_last]
      exact .last (hbefore _)
        (spelled_render hstyle (depth + 1) item h.1
          (ends_of_blank hafter (ends_cons (by decide) rest)))
        (blank_append hafter _)
  | item :: next :: items =>
      rw [renderItems, renderItems, body_more]
      exact .more (hbefore _)
        (spelled_render hstyle (depth + 1) item h.1 (ends_cons (by decide) _)) (.refl _)
        (itemsSpelled_render hstyle depth (next :: items) (by simp) h.2 rest)

theorem membersSpelled_render (hstyle : style.Spaced) (depth : Nat)
    (members : List (Option String × Json)) (hne : members ≠ []) (h : MembersArePlain members)
    (rest : List Char) :
    MembersSpelled (body style depth '\x7d' (renderMembers style (depth + 1) members) ++ rest)
      members rest := by
  have hbefore := blank_append (hstyle.breakAt (depth + 1))
  have hcolon := blank_append hstyle.afterColon
  have hafter := hstyle.breakAt depth
  match members with
  | [(some name, value)] =>
      rw [renderMembers, renderMembers, body_last, Option.getD_some, member_append,
        ← spell_toList name]
      exact .last (hbefore _) (quoted_flatMap name.toList _) (.refl _) (hcolon _)
        (spelled_render hstyle (depth + 1) value h.2.1
          (ends_of_blank hafter (ends_cons (by decide) rest)))
        (blank_append hafter _)
  | (some name, value) :: next :: members =>
      rw [renderMembers, renderMembers, body_more, Option.getD_some, member_append,
        ← spell_toList name]
      exact .more (hbefore _) (quoted_flatMap name.toList _) (.refl _) (hcolon _)
        (spelled_render hstyle (depth + 1) value h.2.1 (ends_cons (by decide) _)) (.refl _)
        (membersSpelled_render hstyle depth (next :: members) (by simp) h.2.2 rest)

end

/-- Plain values are spelled by what is written for them. -/
theorem spells_render (hstyle : style.Spaced) {value : Json} (h : Plain value) :
    Spells (render style 0 value) value := by
  have hends : Ends [] := by rintro _ ⟨⟩
  have hspelled := spelled_render hstyle 0 value h hends
  rw [List.append_nil] at hspelled
  exact ⟨_, [], .refl _, hspelled, .refl _⟩

end StreamPlacement.Json
