import StreamPlacement.Proofs.Arithmetic.Double

/-!
The double that is not a number.

It stands in no order to any double, not even to itself: whatever is asked by `≤` is denied of it.
So a bound that is checked by asking whether it is missed lets it pass, and a bound that is checked
by asking whether it is kept does not.
-/

namespace StreamPlacement.Double

open Float.Model Float.Model.UnpackedFloat

/-! ### Order -/

section Order

variable {x y : Float}

theorem isNaN_iff : x.isNaN = true ↔ x.toModel.unpack = .notANumber := UnpackedFloat.isNaN_iff

theorem le_iff : x ≤ y ↔ x.toModel.unpack.le y.toModel.unpack = true := by
  show Float.le x y = true ↔ _
  unfold Float.le
  rw [decide_eq_true_iff]
  rfl

theorem compare_self {u : UnpackedFloat} (h : u ≠ .notANumber) : u.compare u = some .eq := by
  cases u with
  | notANumber => exact absurd rfl h
  | infinity sign => cases sign <;> rfl
  | zero sign => rfl
  | finite sign mantissa exponent _ =>
      cases sign <;> simp [UnpackedFloat.compare]

/-- A double is at most itself unless it is not a number. -/
theorem le_self_iff : x ≤ x ↔ ¬ x.isNaN = true := by
  rw [le_iff, isNaN_iff, UnpackedFloat.le]
  constructor
  · intro hle hnan
    rw [hnan] at hle
    cases hle
  · intro hnumber
    rw [compare_self hnumber]
    rfl

/-- A number that is not below zero is at least zero. -/
theorem zero_le_of_not_neg (hnumber : ¬ x.isNaN = true) (h : ¬ x < 0) : 0 ≤ x := by
  rw [isNaN_iff] at hnumber
  rw [lt_iff, show (0 : Float).toModel.unpack = .zero .positive from rfl] at h
  rw [le_iff, show (0 : Float).toModel.unpack = .zero .positive from rfl]
  revert hnumber h
  rcases x.toModel.unpack with sign | _ | sign | ⟨sign, mantissa, exponent, hpos⟩ <;>
    intro hnumber h
  · cases sign with
    | positive => rfl
    | negative => exact absurd rfl h
  · exact absurd rfl hnumber
  · rfl
  · cases sign with
    | positive => rfl
    | negative => exact absurd rfl h

theorem le_of_lt (h : x < y) : x ≤ y := by
  rw [lt_iff] at h
  rw [le_iff, UnpackedFloat.le, h]
  rfl

/-- What is not at most zero is either not a number or positive. -/
theorem not_le_zero_cases (h : ¬ x ≤ 0) :
    x.toModel.unpack = .notANumber ∨ x.toModel.unpack = .infinity .positive ∨
      ∃ mantissa exponent hpos,
        x.toModel.unpack = .finite .positive mantissa exponent hpos := by
  rw [le_iff, show (0 : Float).toModel.unpack = .zero .positive from rfl] at h
  revert h
  rcases x.toModel.unpack with sign | _ | sign | ⟨sign, mantissa, exponent, hpos⟩ <;> intro h
  · cases sign with
    | positive => exact .inr (.inl rfl)
    | negative => exact absurd rfl h
  · exact .inl rfl
  · exact absurd rfl h
  · cases sign with
    | positive => exact .inr (.inr ⟨mantissa, exponent, hpos, rfl⟩)
    | negative => exact absurd rfl h

/-- Of what is not at most zero only what is not a number is not positive. -/
theorem pos_iff_of_not_le_zero (h : ¬ x ≤ 0) : 0 < x ↔ ¬ x.isNaN = true := by
  rw [lt_iff, isNaN_iff, show (0 : Float).toModel.unpack = .zero .positive from rfl]
  rcases not_le_zero_cases h with hx | hx | ⟨mantissa, exponent, hpos, hx⟩ <;> rw [hx]
  · exact ⟨fun hlt => (nomatch hlt), fun hne => absurd rfl hne⟩
  · exact ⟨fun _ hnan => (nomatch hnan), fun _ => rfl⟩
  · exact ⟨fun _ hnan => (nomatch hnan), fun _ => rfl⟩

/-- Nothing is rounded where zero is added. -/
theorem zero_add_of_not_le_zero (h : ¬ x ≤ 0) : 0 + x = x := by
  have hsum : UnpackedFloat.add .binary64 (.zero .positive) x.toModel.unpack =
      x.toModel.unpack := by
    rcases not_le_zero_cases h with hx | hx | ⟨mantissa, exponent, hpos, hx⟩ <;> rw [hx] <;> rfl
  have hkept : Float.Model.pack x.toModel.unpack = x.toModel := by
    rw [Float.Model.mk.injEq, ← UInt64.toBitVec_inj]
    exact pack_unpack_of_valid x.toModel.valid
  show Float.ofModel (.pack (UnpackedFloat.add .binary64 (.zero .positive) x.toModel.unpack)) = x
  rw [hsum, hkept]

end Order

/-! ### Where it comes from -/

section Origin

variable {u : UnpackedFloat}

/-- Only what is not a number is packed with all ones before a mantissa that is not zero. -/
theorem pack_eq_packComponents (h : u ≠ .notANumber) :
    ∃ sign exponent mantissa,
      UnpackedFloat.pack .binary64 u = packComponents .binary64 sign exponent mantissa ∧
        (exponent = -1#11 → mantissa = 0#52) := by
  cases u with
  | notANumber => exact absurd rfl h
  | infinity sign => exact ⟨sign, _, _, rfl, fun _ => rfl⟩
  | zero sign => exact ⟨sign, _, _, rfl, fun _ => rfl⟩
  | finite sign mantissa exponent hpos =>
      unfold UnpackedFloat.pack
      dsimp only
      split
      · exact ⟨sign, _, _, rfl, fun _ => rfl⟩
      · next hlow =>
          split
          · refine ⟨sign, _, _, rfl, fun hones => absurd (congrArg BitVec.toNat hones) ?_⟩
            rw [BitVec.toNat_ofNat, show (-1#11).toNat = 2047 from rfl]
            have hbits : 2 ^ Format.binary64.exponentBits = 2048 := rfl
            omega
          · exact ⟨sign, _, _, rfl, fun hones => absurd hones (by decide)⟩

/-- Packing loses no number. -/
theorem isNaN_ofModel_pack (h : u ≠ .notANumber) : ¬ (Float.ofModel (.pack u)).isNaN = true := by
  obtain ⟨sign, exponent, mantissa, hpack, hzero⟩ := pack_eq_packComponents h
  rw [isNaN_iff]
  show ¬ UnpackedFloat.unpack .binary64 (UnpackedFloat.pack .binary64 u) = .notANumber
  rw [unpack_eq_notANumber_iff_of_valid valid_pack, hpack]
  intro hnan
  have hexponent := congrArg unpackExponent hnan
  have hmantissa := congrArg unpackMantissa hnan
  simp only [packedNaN, unpackExponent_packComponents, unpackMantissa_packComponents]
    at hexponent hmantissa
  exact absurd (hmantissa.symm.trans (hzero hexponent)) (by decide)

theorem isNaN_neg {x : Float} (h : ¬ x.isNaN = true) : ¬ (-x).isNaN = true := by
  rw [isNaN_iff] at h
  refine isNaN_ofModel_pack (u := x.toModel.unpack.neg) fun hnan => h ?_
  revert hnan
  cases x.toModel.unpack with
  | notANumber => exact fun _ => rfl
  | infinity sign => exact fun hnan => nomatch hnan
  | zero sign => exact fun hnan => nomatch hnan
  | finite sign mantissa exponent hpos => exact fun hnan => nomatch hnan

theorem roundWithAccuracy_ne (sign : Sign) (mantissa : Nat) (exponent : Int)
    (accuracy : Accuracy) :
    roundWithAccuracy .binary64 sign mantissa exponent accuracy ≠ .notANumber := by
  unfold roundWithAccuracy
  dsimp only
  split <;> exact fun hnan => nomatch hnan

/-- Products and quotients of what is finite and not zero are numbers. -/
theorem mul_ne {sign sign' : Sign} {mantissa mantissa' : Nat} {exponent exponent' : Int}
    (hpos : 0 < mantissa) (hpos' : 0 < mantissa') :
    UnpackedFloat.mul .binary64 (.finite sign mantissa exponent hpos)
      (.finite sign' mantissa' exponent' hpos') ≠ .notANumber :=
  roundWithAccuracy_ne _ _ _ _

theorem div_ne {sign sign' : Sign} {mantissa mantissa' : Nat} {exponent exponent' : Int}
    (hpos : 0 < mantissa) (hpos' : 0 < mantissa') :
    UnpackedFloat.div .binary64 (.finite sign mantissa exponent hpos)
      (.finite sign' mantissa' exponent' hpos') ≠ .notANumber :=
  roundWithAccuracy_ne _ _ _ _

theorem ofScientific_ne (mantissa : Nat) (exponent : Int) :
    UnpackedFloat.ofScientific .binary64 mantissa exponent ≠ .notANumber := by
  unfold UnpackedFloat.ofScientific
  split
  · exact fun hnan => nomatch hnan
  split
  · exact fun hnan => nomatch hnan
  split
  · exact fun hnan => nomatch hnan
  split
  · exact mul_ne _ _
  · exact div_ne _ _

/-- The powers of ten that are kept in a table are finite and positive. -/
theorem unpack_powerOfTen {x : Float} (hx : x ∈ Float.exactlyRepresentablePowersOfTen) :
    ∃ mantissa exponent hpos, x.toModel.unpack = .finite .positive mantissa exponent hpos := by
  have hall : ∀ x ∈ Float.exactlyRepresentablePowersOfTen.toList,
      ¬ x ≤ 0 ∧ x.toModel.unpack.isFinite = true := by decide +kernel
  obtain ⟨hpos, hfinite⟩ := hall x hx.val
  rcases not_le_zero_cases hpos with hunpack | hunpack | hunpack
  · rw [hunpack] at hfinite
    cases hfinite
  · rw [hunpack] at hfinite
    cases hfinite
  · exact hunpack

/-- A decimal with digits is converted to a number. -/
theorem isNaN_ofScientific {digits : Nat} (hpos : 0 < digits) (negative : Bool) (e : Nat) :
    ¬ (Float.ofScientific digits negative e).isNaN = true := by
  unfold Float.ofScientific
  split
  · next hshort =>
      obtain ⟨⟨hpos, hunpack⟩, -, -⟩ := stands_toFloat hpos hshort.1
      have hsize : Float.exactlyRepresentablePowersOfTen.size = 23 := rfl
      obtain ⟨mantissa, exponent, hpos', hunpack'⟩ :=
        unpack_powerOfTen (Array.getElem_mem (show e < _ by omega))
      dsimp only
      split
      · refine isNaN_ofModel_pack (u := UnpackedFloat.div .binary64 _ _) ?_
        rw [hunpack, hunpack']
        exact div_ne _ _
      · refine isNaN_ofModel_pack (u := UnpackedFloat.mul .binary64 _ _) ?_
        rw [hunpack, hunpack']
        exact mul_ne _ _
  · exact isNaN_ofModel_pack (ofScientific_ne _ _)

end Origin

end StreamPlacement.Double
