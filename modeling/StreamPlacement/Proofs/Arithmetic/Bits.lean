import StreamPlacement.Proofs.Arithmetic.NotANumber

/-!
What the bits of a double say of its order.

Read as one whole number, the bits of doubles that are not negative are in the order of the doubles:
the exponent stands in front of the fraction, and a subnormal number has the least exponent. The sign,
the significand and the exponent that are read off the bits are those of the double, so that it is
positive exactly if it has no sign and its significand is not zero.
-/

namespace StreamPlacement.Double

open Float.Model Float.Model.UnpackedFloat

/-! ### Fields -/

/-- What a sign, an exponent and a fraction stand for. -/
inductive Fields (sign : Sign) (exponent fraction : Nat) : UnpackedFloat → Prop
  | infinite (ones : exponent = 2047) (whole : fraction = 0) :
      Fields sign exponent fraction (.infinity sign)
  | notANumber (ones : exponent = 2047) (rest : fraction ≠ 0) :
      Fields sign exponent fraction .notANumber
  | zero (least : exponent = 0) (whole : fraction = 0) :
      Fields sign exponent fraction (.zero sign)
  | subnormal (least : exponent = 0) (pos : 0 < fraction) :
      Fields sign exponent fraction (.finite sign fraction (-1074) pos)
  | normal (least : exponent ≠ 0) (ones : exponent ≠ 2047) (pos : 0 < fraction + 2 ^ 52) :
      Fields sign exponent fraction (.finite sign (fraction + 2 ^ 52) (exponent - 1075) pos)

/-- The sign that stands in front of 63 other bits. -/
def signOf (bits : Nat) : Sign := if bits / 2 ^ 63 % 2 = 0 then .positive else .negative

theorem toNat_unpackMantissa (bits : BitVec Format.binary64.numBits) :
    (unpackMantissa bits).toNat = bits.toNat % 2 ^ 52 := by
  show ((bits.extractLsb 51 0).cast _).toNat = _
  rw [BitVec.toNat_cast, BitVec.extractLsb_toNat]
  rfl

theorem toNat_unpackExponent (bits : BitVec Format.binary64.numBits) :
    (unpackExponent bits).toNat = bits.toNat / 2 ^ 52 % 2 ^ 11 := by
  show ((bits.extractLsb 62 52).cast _).toNat = _
  rw [BitVec.toNat_cast, BitVec.extractLsb_toNat, Nat.shiftRight_eq_div_pow]

theorem toNat_unpackSign (bits : BitVec Format.binary64.numBits) :
    (unpackSign bits).toNat = bits.toNat / 2 ^ 63 % 2 := by
  show ((bits.extractLsb 63 63).cast _).toNat = _
  rw [BitVec.toNat_cast, BitVec.extractLsb_toNat, Nat.shiftRight_eq_div_pow]

theorem ofBitVec_unpackSign (bits : BitVec Format.binary64.numBits) :
    Sign.ofBitVec (unpackSign bits) = signOf bits.toNat := by
  have hzero : unpackSign bits = 0#1 ↔ (unpackSign bits).toNat = 0 := BitVec.toNat_inj.symm
  simp only [Sign.ofBitVec, signOf, hzero, toNat_unpackSign]

theorem fields_unpackBits (bits : BitVec Format.binary64.numBits) :
    Fields (signOf bits.toNat) (bits.toNat / 2 ^ 52 % 2 ^ 11) (bits.toNat % 2 ^ 52)
      (UnpackedFloat.unpack .binary64 bits) := by
  have hones : unpackExponent bits = -1#11 ↔ (unpackExponent bits).toNat = 2047 :=
    BitVec.toNat_inj.symm
  have hleast : unpackExponent bits = 0#11 ↔ (unpackExponent bits).toNat = 0 :=
    BitVec.toNat_inj.symm
  have hwhole : unpackMantissa bits = 0#52 ↔ (unpackMantissa bits).toNat = 0 :=
    BitVec.toNat_inj.symm
  rw [← ofBitVec_unpackSign, ← toNat_unpackExponent bits, ← toNat_unpackMantissa bits]
  unfold UnpackedFloat.unpack
  dsimp only
  split
  · next h =>
      split
      · next h' => exact .infinite (hones.mp h) (hwhole.mp h')
      · next h' => exact .notANumber (hones.mp h) (hwhole.not.mp h')
  split
  · next h =>
      split
      · next h' => exact .zero (hleast.mp h) (hwhole.mp h')
      · next h' =>
          have hexponent : ((unpackExponent bits).toNat : Int) -
              ((Format.binary64.exponentBias : Int) +
                (Format.binary64.mantissaBitsWithoutImplicit : Nat)) + 1 = -1074 := by
            rw [hleast.mp h]
            rfl
          rw [hexponent]
          exact .subnormal (hleast.mp h) (Nat.pos_of_ne_zero (hwhole.not.mp h'))
  · next h h' =>
      have hexponent : ((unpackExponent bits).toNat : Int) -
          ((Format.binary64.exponentBias : Int) +
            (Format.binary64.mantissaBitsWithoutImplicit : Nat)) =
          (unpackExponent bits).toNat - 1075 := rfl
      have hmantissa : (1#1 ++ unpackMantissa bits).toNat =
          (unpackMantissa bits).toNat + 2 ^ 52 := by
        rw [BitVec.toNat_append, ← Nat.shiftLeft_add_eq_or_of_lt (unpackMantissa bits).isLt]
        exact Nat.add_comm _ _
      rw [hexponent]
      convert Fields.normal (hleast.not.mp h') (hones.not.mp h) (Nat.succ_pos _) using 2

variable {x y : Float}

theorem fields_unpack (x : Float) :
    Fields (signOf x.toBits.toNat) (x.toBits.toNat / 2 ^ 52 % 2 ^ 11) (x.toBits.toNat % 2 ^ 52)
      x.toModel.unpack := fields_unpackBits _

/-! ### The two readings of a double -/

/-- Whether a sign is the one of negative numbers. -/
def isNegative : Sign → Bool
  | .negative => true
  | .positive => false

/-- A double that is read off its bits, from the one that is unpacked. -/
def reading : UnpackedFloat → Binary64
  | .infinity sign => .infinite (isNegative sign)
  | .notANumber => .notANumber
  | .zero sign => .finite (isNegative sign) 0 (-1074)
  | .finite sign significand exponent _ => .finite (isNegative sign) significand exponent

theorem isNegative_signOf (bits : Nat) :
    (bits / 2 ^ 63 % 2 == 1) = isNegative (signOf bits) := by
  rw [signOf]
  split
  · next heq => rw [heq]; rfl
  · next hne => rw [show bits / 2 ^ 63 % 2 = 1 by omega]; rfl

theorem ofFloat_eq (x : Float) : Binary64.ofFloat x = reading x.toModel.unpack := by
  have hfields := fields_unpack x
  unfold Binary64.ofFloat Binary64.ofBits
  dsimp only
  rw [Nat.pow_eq, Nat.pow_eq, Nat.pow_eq, isNegative_signOf]
  generalize x.toBits.toNat % 2 ^ 52 = fraction at *
  generalize x.toBits.toNat / 2 ^ 52 % 2 ^ 11 = biased at *
  generalize signOf x.toBits.toNat = sign at *
  generalize x.toModel.unpack = u at *
  cases hfields with
  | infinite ones whole => rw [if_pos ones, if_pos whole]; rfl
  | notANumber ones rest => rw [if_pos ones, if_neg rest]; rfl
  | zero least whole => rw [if_neg (by omega), if_pos least, whole]; rfl
  | subnormal least pos => rw [if_neg (by omega), if_pos least]; rfl
  | normal least ones pos => rw [if_neg ones, if_neg least]; rfl

/-- The significand of a finite double has 53 bits at most. -/
theorem significand_lt {negative : Bool} {significand : Nat} {exponent : Int}
    (h : Binary64.ofFloat x = .finite negative significand exponent) : significand < 2 ^ 53 := by
  have hfields := fields_unpack x
  have hfraction : x.toBits.toNat % 2 ^ 52 < 2 ^ 52 := Nat.mod_lt _ (by decide)
  rw [ofFloat_eq] at h
  generalize x.toBits.toNat % 2 ^ 52 = fraction at *
  generalize x.toModel.unpack = u at *
  cases hfields with
  | infinite => cases h
  | notANumber => cases h
  | zero => cases h; decide
  | subnormal => cases h; omega
  | normal => cases h; omega

/-- A finite double is positive exactly if it has no sign and is not zero. -/
theorem pos_iff_of_finite {negative : Bool} {significand : Nat} {exponent : Int}
    (h : Binary64.ofFloat x = .finite negative significand exponent) :
    0 < x ↔ negative = false ∧ 0 < significand := by
  rw [lt_iff, show (0 : Float).toModel.unpack = .zero .positive from rfl]
  rw [ofFloat_eq] at h
  generalize x.toModel.unpack = u at *
  match u with
  | .zero sign =>
      cases h
      simp [UnpackedFloat.compare]
  | .finite sign significand exponent pos =>
      cases h
      cases sign <;> simp [UnpackedFloat.compare, isNegative, pos]

/-- A finite double is a number. -/
theorem number_of_finite {negative : Bool} {significand : Nat} {exponent : Int}
    (h : Binary64.ofFloat x = .finite negative significand exponent) : ¬ x.isNaN = true := by
  intro hnan
  rw [ofFloat_eq, isNaN_iff.mp hnan] at h
  cases h

/-- A positive double that is not the infinity is finite. -/
theorem finite_of_pos (h : 0 < x) (hfinite : Binary64.ofFloat x ≠ .infinite false) :
    ∃ mantissa exponent pos, x.toModel.unpack = .finite .positive mantissa exponent pos := by
  rw [lt_iff, show (0 : Float).toModel.unpack = .zero .positive from rfl] at h
  rw [ofFloat_eq] at hfinite
  generalize x.toModel.unpack = u at *
  match u with
  | .infinity .positive => exact absurd rfl hfinite
  | .finite .positive mantissa exponent pos => exact ⟨mantissa, exponent, pos, rfl⟩

/-! ### Order -/

/-- A double that is a number and has no sign. -/
structure Unsigned (x : Float) : Prop where
  number : ¬ x.isNaN = true
  bits_lt : x.toBits.toNat < 2 ^ 63

theorem eq_of_toBits_eq (h : x.toBits.toNat = y.toBits.toNat) : x = y := by
  obtain ⟨⟨bits, _⟩⟩ := x
  obtain ⟨⟨bits', _⟩⟩ := y
  obtain rfl : bits = bits' := UInt64.toNat_inj.mp h
  rfl

theorem signOf_of_lt {bits : Nat} (h : bits < 2 ^ 63) : signOf bits = .positive := by
  rw [signOf, Nat.div_eq_of_lt h]
  rfl

/-- Among fields of one length, the larger number has the larger first field, or the same first
field and the larger rest. -/
theorem Fields.lt_iff {n n' : Nat} {u u' : UnpackedFloat} (hlt : n < 2 ^ 63) (hlt' : n' < 2 ^ 63)
    (hu : u ≠ .notANumber) (hu' : u' ≠ .notANumber)
    (h : Fields .positive (n / 2 ^ 52 % 2 ^ 11) (n % 2 ^ 52) u)
    (h' : Fields .positive (n' / 2 ^ 52 % 2 ^ 11) (n' % 2 ^ 52) u') :
    u.compare u' = some .lt ↔ n < n' := by
  have hsplit : n = 2 ^ 52 * (n / 2 ^ 52 % 2 ^ 11) + n % 2 ^ 52 := by omega
  have hsplit' : n' = 2 ^ 52 * (n' / 2 ^ 52 % 2 ^ 11) + n' % 2 ^ 52 := by omega
  have hfraction : n % 2 ^ 52 < 2 ^ 52 := Nat.mod_lt _ (by decide)
  have hfraction' : n' % 2 ^ 52 < 2 ^ 52 := Nat.mod_lt _ (by decide)
  have hexponent : n / 2 ^ 52 % 2 ^ 11 < 2048 := Nat.mod_lt _ (by decide)
  have hexponent' : n' / 2 ^ 52 % 2 ^ 11 < 2048 := Nat.mod_lt _ (by decide)
  generalize n / 2 ^ 52 % 2 ^ 11 = biased at *
  generalize n' / 2 ^ 52 % 2 ^ 11 = biased' at *
  generalize n % 2 ^ 52 = fraction at *
  generalize n' % 2 ^ 52 = fraction' at *
  -- Whatever kinds the two are of, what is left to compare are their fields.
  cases h <;> cases h' <;> simp only [UnpackedFloat.compare, Option.some.injEq,
    Ordering.then_eq_lt, compare_lt_iff_lt, compare_eq_iff_eq, reduceCtorEq, false_iff,
    true_iff, true_and, ne_eq, not_true_eq_false] at hu hu' ⊢ <;> omega

/-- Of doubles without a sign the smaller one has the smaller bits. -/
theorem Unsigned.lt_iff (h : Unsigned x) (h' : Unsigned y) :
    x < y ↔ x.toBits.toNat < y.toBits.toNat := by
  have hx := fields_unpack x
  have hy := fields_unpack y
  rw [signOf_of_lt h.bits_lt] at hx
  rw [signOf_of_lt h'.bits_lt] at hy
  rw [Double.lt_iff]
  exact hx.lt_iff h.bits_lt h'.bits_lt (isNaN_iff.not.mp h.number) (isNaN_iff.not.mp h'.number) hy

/-! ### Numbers without a sign -/

/-- What has no sign: zero, a positive number or the positive infinity. -/
inductive Signless : UnpackedFloat → Prop
  | infinite : Signless (.infinity .positive)
  | zero : Signless (.zero .positive)
  | finite (mantissa : Nat) (exponent : Int) (pos : 0 < mantissa) :
      Signless (.finite .positive mantissa exponent pos)

theorem Unsigned.signless (h : Unsigned x) : Signless x.toModel.unpack := by
  have hfields := fields_unpack x
  have hnumber := isNaN_iff.not.mp h.number
  rw [signOf_of_lt h.bits_lt] at hfields
  generalize x.toModel.unpack = u at *
  cases hfields with
  | infinite => exact .infinite
  | notANumber => exact absurd rfl hnumber
  | zero => exact .zero
  | subnormal least pos => exact .finite _ _ pos
  | normal least ones pos => exact .finite _ _ pos

/-- What is packed with a positive sign has the first bit zero. -/
theorem toNat_packComponents_lt (exponent : BitVec Format.binary64.exponentBits)
    (mantissa : BitVec Format.binary64.mantissaBitsWithoutImplicit) :
    (packComponents .binary64 .positive exponent mantissa).toNat < 2 ^ 63 := by
  have hsign : (unpackSign (packComponents .binary64 .positive exponent mantissa)).toNat = 0 :=
    congrArg BitVec.toNat (unpackSign_packComponents .positive exponent mantissa)
  have hlt : (packComponents .binary64 .positive exponent mantissa).toNat < 2 ^ 64 :=
    (packComponents .binary64 .positive exponent mantissa).isLt
  rw [toNat_unpackSign] at hsign
  omega

theorem Signless.unsigned {u : UnpackedFloat} (h : Signless u) :
    Unsigned (.ofModel (.pack u)) where
  number := isNaN_ofModel_pack (by cases h <;> exact fun hnan => nomatch hnan)
  bits_lt := by
    show (UnpackedFloat.pack .binary64 u).toNat < 2 ^ 63
    cases h with
    | infinite => exact toNat_packComponents_lt _ _
    | zero => exact toNat_packComponents_lt _ _
    | finite mantissa exponent pos =>
        unfold UnpackedFloat.pack
        dsimp only
        split
        · exact toNat_packComponents_lt _ _
        split
        · exact toNat_packComponents_lt _ _
        · exact toNat_packComponents_lt _ _

theorem signless_roundWithAccuracy (mantissa : Nat) (exponent : Int) (accuracy : Accuracy) :
    Signless (roundWithAccuracy .binary64 .positive mantissa exponent accuracy) := by
  unfold roundWithAccuracy
  dsimp only
  split
  · exact .zero
  · exact .finite _ _ _

/-- A product with a finite positive double has the sign of the other factor. -/
theorem Unsigned.mul (h : Unsigned x) {mantissa : Nat} {exponent : Int} {pos : 0 < mantissa}
    (hy : y.toModel.unpack = .finite .positive mantissa exponent pos) : Unsigned (x * y) := by
  refine Signless.unsigned (u := UnpackedFloat.mul .binary64 _ _) ?_
  have hx := h.signless
  rw [hy]
  generalize x.toModel.unpack = u at hx ⊢
  cases hx with
  | infinite => exact .infinite
  | zero => exact .zero
  | finite => exact signless_roundWithAccuracy _ _ _

/-- A quotient by a finite positive double has the sign of what is divided. -/
theorem Unsigned.div (h : Unsigned x) {mantissa : Nat} {exponent : Int} {pos : 0 < mantissa}
    (hy : y.toModel.unpack = .finite .positive mantissa exponent pos) : Unsigned (x / y) := by
  refine Signless.unsigned (u := UnpackedFloat.div .binary64 _ _) ?_
  have hx := h.signless
  rw [hy]
  generalize x.toModel.unpack = u at hx ⊢
  cases hx with
  | infinite => exact .infinite
  | zero => exact .zero
  | finite => exact signless_roundWithAccuracy _ _ _

/-- A word is converted to a double without a sign. -/
theorem unsigned_toFloat (word : UInt64) : Unsigned word.toFloat := by
  refine Signless.unsigned
    (u := UnpackedFloat.normalize .binary64 (word.toNat : Int) 0 .positive) ?_
  unfold UnpackedFloat.normalize
  split
  · next hlt => exact absurd (compare_lt_iff_lt.mp hlt) (by omega)
  · exact .zero
  · exact signless_roundWithAccuracy _ _ _

end StreamPlacement.Double
