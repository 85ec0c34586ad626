import Mathlib
import StreamPlacement.Arithmetic.Quantity

/-!
Whole numbers over one thousand, in doubles.

A mantissa that is cut off keeps two bits of what is lost, and these tell on which side of the half
it was. So conversion and division both come to a number of 53 bits to which no other is nearer, and
neither makes less of more. The order of positive doubles is the order of what they stand for.
-/

namespace StreamPlacement.Double

open Float.Model Float.Model.UnpackedFloat

/-! ### Mantissas -/

/-- What a mantissa and its two residual bits tell of the number that was cut off to it. -/
structure Cut (em : ExtendedMantissa) (y : Rat) : Prop where
  le : em.mantissa ≤ y
  lt : y < em.mantissa + 1
  down : em.roundBit = false → y ≤ em.mantissa + 1 / 2
  up : em.roundBit = true → em.mantissa + 1 / 2 ≤ y
  exact : em.stickyBit = false → y = em.mantissa + if em.roundBit then 1 / 2 else 0

variable {em : ExtendedMantissa} {y : Rat}

theorem Cut.shiftRightOne (h : Cut em y) : Cut em.shiftRightOne (y / 2) := by
  have hle := h.le
  have hlt := h.lt
  have hhalf : (em.mantissa : Rat) = 2 * (em.mantissa / 2 : Nat) + (em.mantissa % 2 : Nat) := by
    exact_mod_cast (Nat.div_add_mod em.mantissa 2).symm
  have hbit : em.mantissa % 2 = 0 ∨ em.mantissa % 2 = 1 := Nat.mod_two_eq_zero_or_one _
  constructor
  case le =>
    show ((em.mantissa / 2 : Nat) : Rat) ≤ y / 2
    rcases hbit with hbit | hbit <;> rw [hbit] at hhalf <;> push_cast at hhalf ⊢ <;> linarith
  case lt =>
    show y / 2 < ((em.mantissa / 2 : Nat) : Rat) + 1
    rcases hbit with hbit | hbit <;> rw [hbit] at hhalf <;> push_cast at hhalf ⊢ <;> linarith
  case down =>
    intro hround
    have heven : em.mantissa % 2 = 0 := by simpa [ExtendedMantissa.shiftRightOne] using hround
    show y / 2 ≤ ((em.mantissa / 2 : Nat) : Rat) + 1 / 2
    rw [heven] at hhalf
    push_cast at hhalf ⊢
    linarith
  case up =>
    intro hround
    have hodd : em.mantissa % 2 = 1 := by simpa [ExtendedMantissa.shiftRightOne] using hround
    show ((em.mantissa / 2 : Nat) : Rat) + 1 / 2 ≤ y / 2
    rw [hodd] at hhalf
    push_cast at hhalf ⊢
    linarith
  case exact =>
    intro hsticky
    obtain ⟨hround, hsticky⟩ : em.roundBit = false ∧ em.stickyBit = false := by
      simpa [ExtendedMantissa.shiftRightOne] using hsticky
    have hexact := h.exact hsticky
    rw [hround] at hexact
    show y / 2 = ((em.mantissa / 2 : Nat) : Rat) + if em.mantissa % 2 != 0 then 1 / 2 else 0
    rcases hbit with hbit | hbit <;> rw [hbit] at hhalf ⊢ <;> simp at hhalf hexact ⊢ <;> linarith

theorem Cut.shift (h : Cut em y) (n : Nat) : Cut (em >>> n) (y / 2 ^ n) := by
  induction n with
  | zero =>
      rw [pow_zero, div_one]
      exact h
  | succ n ih =>
      rw [pow_succ, ← div_div]
      exact ih.shiftRightOne

/-- Rounding chooses one of the two neighbours, no further away than half. -/
theorem Cut.rounded (h : Cut em y) :
    em.mantissa ≤ em.roundedMantissa ∧ em.roundedMantissa ≤ em.mantissa + 1 ∧
      |y - em.roundedMantissa| ≤ 1 / 2 := by
  obtain ⟨mantissa, roundBit, stickyBit⟩ := em
  have hle := h.le
  have hlt := h.lt
  rw [abs_le]
  cases roundBit with
  | false =>
      have hdown := h.down rfl
      have hrounded : (ExtendedMantissa.mk mantissa false stickyBit).roundedMantissa =
          mantissa := by
        cases stickyBit <;> rfl
      rw [hrounded]
      dsimp only at hle hlt hdown ⊢
      exact ⟨Nat.le_refl _, Nat.le_succ _, by linarith, by linarith⟩
  | true =>
      have hup := h.up rfl
      cases stickyBit with
      | false =>
          have hexact := h.exact rfl
          have hrounded : (ExtendedMantissa.mk mantissa true false).roundedMantissa =
              mantissa + mantissa % 2 := rfl
          rw [hrounded]
          simp only [if_true] at hexact
          dsimp only at hle hlt hup ⊢
          rcases Nat.mod_two_eq_zero_or_one mantissa with hbit | hbit <;> rw [hbit] <;>
            push_cast <;> exact ⟨by omega, by omega, by linarith, by linarith⟩
      | true =>
          have hrounded : (ExtendedMantissa.mk mantissa true true).roundedMantissa =
              mantissa + 1 := rfl
          rw [hrounded]
          dsimp only at hle hlt hup ⊢
          push_cast
          exact ⟨Nat.le_succ _, Nat.le_refl _, by linarith, by linarith⟩

theorem cut_exact (mantissa : Nat) :
    Cut (.ofMantissaAndAccuracy mantissa .exact) mantissa where
  le := le_refl _
  lt := lt_add_one _
  down _ := le_add_of_nonneg_right (by norm_num)
  up h := by cases h
  exact _ := (add_zero _).symm

/-- A quotient is cut off to its whole part. -/
theorem cut_fraction (num : Nat) {den : Nat} (hden : 0 < den) :
    Cut (.ofMantissaAndAccuracy (num / den) (accuracyOfFraction (num % den) den))
      ((num : Rat) / den) := by
  have hpos : (0 : Rat) < den := by exact_mod_cast hden
  have hsplit : (num : Rat) / den = (num / den : Nat) + ((num % den : Nat) : Rat) / den := by
    have hnum : (num : Rat) = den * (num / den : Nat) + (num % den : Nat) := by
      exact_mod_cast (Nat.div_add_mod num den).symm
    field_simp
    linarith
  have hrest : ((num % den : Nat) : Rat) < den := by exact_mod_cast Nat.mod_lt num hden
  rw [hsplit]
  generalize num / den = whole
  generalize num % den = rest at hrest
  have hnonneg : (0 : Rat) ≤ (rest : Rat) / den := by positivity
  have hlt : (rest : Rat) / den < 1 := (div_lt_one hpos).mpr hrest
  unfold accuracyOfFraction
  split
  · next hzero =>
      rw [hzero, Nat.cast_zero, zero_div, add_zero]
      exact cut_exact whole
  · next hrest0 =>
      have hne : (0 : Rat) < (rest : Rat) / den := by
        have : (0 : Rat) < rest := by exact_mod_cast Nat.pos_of_ne_zero hrest0
        positivity
      have hhalf : (rest : Rat) / den ≤ 1 / 2 ↔ 2 * rest ≤ den := by
        rw [div_le_iff₀ hpos, ← Nat.cast_le (α := Rat)]
        push_cast
        constructor <;> intro h <;> linarith
      have hhalf' : 1 / 2 ≤ (rest : Rat) / den ↔ den ≤ 2 * rest := by
        rw [le_div_iff₀ hpos, ← Nat.cast_le (α := Rat)]
        push_cast
        constructor <;> intro h <;> linarith
      generalize (rest : Rat) / den = part at *
      cases hcompare : compare (2 * rest) den with
      | lt =>
          have hdown := hhalf.mpr (Nat.compare_eq_lt.mp hcompare).le
          constructor <;> simp [ExtendedMantissa.ofMantissaAndAccuracy] <;> linarith
      | eq =>
          have hdown := hhalf.mpr (Nat.compare_eq_eq.mp hcompare).le
          have hup := hhalf'.mpr (Nat.compare_eq_eq.mp hcompare).ge
          constructor <;> simp [ExtendedMantissa.ofMantissaAndAccuracy] <;> linarith
      | gt =>
          have hup := hhalf'.mpr (Nat.compare_eq_gt.mp hcompare).le
          constructor <;> simp [ExtendedMantissa.ofMantissaAndAccuracy] <;> linarith

/-! ### Rounding to 53 bits -/

/-- `v` is one of the multiples of `2 ^ k` with 53 bits, or the next power of two, and none of them
is nearer to `x`. -/
structure Nearest (k : Int) (x v : Rat) : Prop where
  le : 2 ^ 52 * 2 ^ k ≤ x
  lt : x < 2 ^ 53 * 2 ^ k
  grid : ∃ r : Nat, 2 ^ 52 ≤ r ∧ r ≤ 2 ^ 53 ∧ v = r * 2 ^ k
  close : |x - v| ≤ 2 ^ k / 2

theorem two_zpow_pos (k : Int) : (0 : Rat) < 2 ^ k := zpow_pos two_pos k

theorem two_zpow_succ_le {k l : Int} (h : k < l) : 2 * (2 : Rat) ^ k ≤ 2 ^ l := by
  calc
    2 * (2 : Rat) ^ k = 2 ^ (k + 1) := by rw [zpow_add_one₀ two_ne_zero, mul_comm]
    _ ≤ 2 ^ l := zpow_le_zpow_right₀ one_le_two h

/-- The nearest number does not fall when what it is nearest to rises. -/
theorem Nearest.mono {k l : Int} {x y v w : Rat} (h : Nearest k x v) (h' : Nearest l y w)
    (hlt : x < y) : v ≤ w := by
  obtain ⟨r, -, hr, rfl⟩ := h.grid
  obtain ⟨r', hr', -, rfl⟩ := h'.grid
  have hr : (r : Rat) ≤ 2 ^ 53 := by exact_mod_cast hr
  have hr' : (2 : Rat) ^ 52 ≤ r' := by exact_mod_cast hr'
  rcases lt_trichotomy k l with hkl | rfl | hkl
  · calc
      (r : Rat) * 2 ^ k ≤ 2 ^ 53 * 2 ^ k := mul_le_mul_of_nonneg_right hr (two_zpow_pos k).le
      _ = 2 ^ 52 * (2 * 2 ^ k) := by ring
      _ ≤ 2 ^ 52 * 2 ^ l := mul_le_mul_of_nonneg_left (two_zpow_succ_le hkl) (by positivity)
      _ ≤ r' * 2 ^ l := mul_le_mul_of_nonneg_right hr' (two_zpow_pos l).le
  · -- Two different multiples are as far apart as both roundings together can move.
    by_contra hfalls
    have hlt' : r' + 1 ≤ r := by
      by_contra hle
      have hcast : (r : Rat) ≤ r' := by exact_mod_cast (by omega : r ≤ r')
      exact hfalls (mul_le_mul_of_nonneg_right hcast (two_zpow_pos k).le)
    have hcast : (r' : Rat) + 1 ≤ r := by exact_mod_cast hlt'
    have hapart := mul_le_mul_of_nonneg_right hcast (two_zpow_pos k).le
    have hbelow := (abs_le.mp h.close).1
    have habove := (abs_le.mp h'.close).2
    linarith
  · exfalso
    have hpow := mul_le_mul_of_nonneg_left (two_zpow_succ_le hkl)
      (show (0 : Rat) ≤ 2 ^ 52 by positivity)
    have hbelow := h.le
    have habove := h'.lt
    linarith

theorem targetExponent_binary64 (total : Int) :
    Format.binary64.targetExponent total = max (total - 53) (-1074) := rfl

theorem le_log2 {mantissa : Nat} (h : 2 ^ 52 ≤ mantissa) : 52 ≤ mantissa.log2 :=
  (Nat.le_log2 (by omega)).mpr h

theorem log2_eq {mantissa : Nat} (hle : 2 ^ 52 ≤ mantissa) (hlt : mantissa < 2 ^ 53) :
    mantissa.log2 = 52 :=
  (Nat.log2_eq_iff (by omega)).mpr ⟨hle, hlt⟩

/-- A mantissa that is long enough is cut to 53 bits. -/
theorem shiftToTargetExponent_eq {mantissa : Nat} {exponent : Int} (accuracy : Accuracy)
    (hmantissa : 2 ^ 52 ≤ mantissa) (hexponent : -1074 ≤ exponent) :
    shiftToTargetExponent .binary64 mantissa exponent accuracy =
      (ExtendedMantissa.ofMantissaAndAccuracy mantissa accuracy >>> (mantissa.log2 - 52),
        exponent + ((mantissa.log2 - 52 : Nat) : Int)) := by
  have hlong := le_log2 hmantissa
  have hshift : (Format.binary64.targetExponent (totalExponent mantissa exponent) -
      exponent).toNat = mantissa.log2 - 52 := by
    rw [targetExponent_binary64, totalExponent]
    omega
  unfold shiftToTargetExponent shiftToExponent
  dsimp only
  rw [hshift]

/-- The number itself is cut to 53 bits before the point. -/
theorem Cut.bounds {mantissa : Nat} {accuracy : Accuracy}
    (h : Cut (.ofMantissaAndAccuracy mantissa accuracy) y) (hmantissa : 2 ^ 52 ≤ mantissa) :
    2 ^ 52 ≤ y / 2 ^ (mantissa.log2 - 52) ∧ y / 2 ^ (mantissa.log2 - 52) < 2 ^ 53 := by
  have hlong := le_log2 hmantissa
  have hwhole : (ExtendedMantissa.ofMantissaAndAccuracy mantissa accuracy).mantissa = mantissa := by
    rcases accuracy with _ | (_ | _ | _) <;> rfl
  have hle := h.le
  have hlt := h.lt
  rw [hwhole] at hle hlt
  rw [le_div_iff₀ (by positivity), div_lt_iff₀ (by positivity), ← pow_add, ← pow_add,
    show 52 + (mantissa.log2 - 52) = mantissa.log2 by omega,
    show 53 + (mantissa.log2 - 52) = mantissa.log2 + 1 by omega]
  have hbelow : (2 : Rat) ^ mantissa.log2 ≤ mantissa := by
    exact_mod_cast Nat.log2_self_le (by omega)
  have habove : (mantissa : Rat) + 1 ≤ 2 ^ (mantissa.log2 + 1) := by
    have hlog : mantissa < 2 ^ (mantissa.log2 + 1) := Nat.lt_log2_self
    exact_mod_cast hlog
  exact ⟨hbelow.trans hle, hlt.trans_le habove⟩

/-- The rounded mantissa has 53 bits, or is the next power of two. -/
theorem Cut.nearest (h : Cut em y) (hle : 2 ^ 52 ≤ y) (hlt : y < 2 ^ 53) (k : Int) :
    2 ^ 52 ≤ em.roundedMantissa ∧ em.roundedMantissa ≤ 2 ^ 53 ∧
      Nearest k (y * 2 ^ k) (em.roundedMantissa * 2 ^ k) := by
  obtain ⟨hge, hsucc, hclose⟩ := h.rounded
  have hmantissa : 2 ^ 52 ≤ em.mantissa := by
    have hcast : 2 ^ 52 < em.mantissa + 1 := by exact_mod_cast hle.trans_lt h.lt
    omega
  have hmantissa' : em.mantissa < 2 ^ 53 := by exact_mod_cast h.le.trans_lt hlt
  have hpos := two_zpow_pos k
  refine ⟨by omega, by omega, mul_le_mul_of_nonneg_right hle hpos.le,
    mul_lt_mul_of_pos_right hlt hpos, ⟨_, by omega, by omega, rfl⟩, ?_⟩
  calc
    |y * 2 ^ k - em.roundedMantissa * 2 ^ k| = |y - em.roundedMantissa| * 2 ^ k := by
      rw [← sub_mul, abs_mul, abs_of_pos hpos]
    _ ≤ 1 / 2 * 2 ^ k := mul_le_mul_of_nonneg_right hclose hpos.le
    _ = 2 ^ k / 2 := by ring

/-- What is cut off to 53 bits or more is rounded to the nearest number with 53 bits. -/
theorem roundWithAccuracy_eq {mantissa : Nat} {exponent : Int} {accuracy : Accuracy}
    (hcut : Cut (.ofMantissaAndAccuracy mantissa accuracy) y) (hmantissa : 2 ^ 52 ≤ mantissa)
    (hexponent : -1074 ≤ exponent) (sign : Sign) :
    ∃ (m : Nat) (e : Int) (hpos : 0 < m),
      roundWithAccuracy .binary64 sign mantissa exponent accuracy = .finite sign m e hpos ∧
      2 ^ 52 ≤ m ∧ m < 2 ^ 53 ∧ exponent ≤ e ∧ e ≤ exponent + mantissa.log2 - 51 ∧
      ∃ k, Nearest k (y * 2 ^ exponent) (m * 2 ^ e) := by
  have hlong := le_log2 hmantissa
  obtain ⟨hbelow, habove⟩ := hcut.bounds hmantissa
  set k : Int := exponent + ((mantissa.log2 - 52 : Nat) : Int) with hk
  have hscaled : y / 2 ^ (mantissa.log2 - 52) * 2 ^ k = y * 2 ^ exponent := by
    rw [hk, zpow_add₀ two_ne_zero, zpow_natCast]
    field_simp
  obtain ⟨hge, hle, hnearest⟩ := (hcut.shift (mantissa.log2 - 52)).nearest hbelow habove k
  rw [hscaled] at hnearest
  unfold roundWithAccuracy
  rw [shiftToTargetExponent_eq accuracy hmantissa hexponent, ← hk]
  dsimp only
  generalize (ExtendedMantissa.ofMantissaAndAccuracy mantissa accuracy >>>
    (mantissa.log2 - 52)).roundedMantissa = r at hge hle hnearest ⊢
  rw [shiftToTargetExponent_eq .exact hge (by omega)]
  -- Only a mantissa that was rounded up to the next power of two is cut once more.
  rcases hle.lt_or_eq with hlt | rfl
  · rw [log2_eq hge hlt]
    refine ⟨r, k, by omega, ?_, hge, hlt, by omega, by omega, k, hnearest⟩
    rw [Nat.sub_self, Int.natCast_zero, Int.add_zero]
    exact dif_neg (show r ≠ 0 by omega)
  · have hlog : (2 ^ 53).log2 - 52 = 1 := by decide
    have hhalf : (ExtendedMantissa.ofMantissaAndAccuracy (2 ^ 53) .exact >>> 1).mantissa =
        2 ^ 52 := by rfl
    have hsame : ((2 ^ 52 : Nat) : Rat) * 2 ^ (k + (1 : Nat)) = (2 ^ 53 : Nat) * 2 ^ k := by
      rw [Nat.cast_one, zpow_add_one₀ two_ne_zero]
      push_cast
      ring
    rw [hlog]
    refine ⟨_, k + (1 : Nat), _, dif_neg (hhalf ▸ by decide), hhalf.ge, hhalf ▸ by decide,
      by omega, by omega, k, ?_⟩
    rw [hhalf, hsame]
    exact hnearest

/-- Nothing is lost of trailing zeros. -/
theorem shiftRight_exact (mantissa n : Nat) :
    ExtendedMantissa.ofMantissaAndAccuracy (mantissa * 2 ^ n) .exact >>> n =
      .ofMantissaAndAccuracy mantissa .exact := by
  induction n generalizing mantissa with
  | zero =>
      rw [pow_zero, Nat.mul_one]
      rfl
  | succ n ih =>
      have hsplit : mantissa * 2 ^ (n + 1) = mantissa * 2 * 2 ^ n := by ring
      rw [hsplit]
      show (ExtendedMantissa.ofMantissaAndAccuracy _ .exact >>> n).shiftRightOne = _
      rw [ih]
      simp [ExtendedMantissa.ofMantissaAndAccuracy, ExtendedMantissa.shiftRightOne]

/-- A number of 53 bits is rounded to itself. -/
theorem roundWithAccuracy_exact {mantissa : Nat} (sign : Sign) (exponent : Int) (n : Nat)
    (hle : 2 ^ 52 ≤ mantissa) (hlt : mantissa < 2 ^ 53) (hexponent : -1074 ≤ exponent) :
    ∃ hpos, roundWithAccuracy .binary64 sign (mantissa * 2 ^ n) exponent .exact =
      .finite sign mantissa (exponent + n) hpos := by
  have hlog := log2_eq hle hlt
  have hlong : 2 ^ 52 ≤ mantissa * 2 ^ n := hle.trans (Nat.le_mul_of_pos_right _ (by positivity))
  have hshift : (mantissa * 2 ^ n).log2 = 52 + n := by
    refine (Nat.log2_eq_iff (by omega)).mpr ⟨?_, ?_⟩
    · rw [pow_add]
      exact Nat.mul_le_mul_right _ hle
    · rw [Nat.add_right_comm, pow_add]
      exact Nat.mul_lt_mul_of_pos_right hlt (by positivity)
  have hrounded : (ExtendedMantissa.ofMantissaAndAccuracy mantissa .exact).roundedMantissa =
      mantissa := rfl
  unfold roundWithAccuracy
  rw [shiftToTargetExponent_eq .exact hlong hexponent, hshift, Nat.add_sub_cancel_left,
    shiftRight_exact]
  dsimp only
  rw [hrounded, shiftToTargetExponent_eq .exact hle (by omega), hlog]
  refine ⟨by omega, (dif_neg (show mantissa ≠ 0 by omega)).trans ?_⟩
  congr 1
  simp

/-! ### Doubles -/

/-- A positive double is `mantissa * 2 ^ exponent`, with a mantissa of 53 bits. -/
structure Stands (x : Float) (mantissa : Nat) (exponent : Int) : Prop where
  unpack : ∃ h, x.toModel.unpack = .finite .positive mantissa exponent h
  le : 2 ^ 52 ≤ mantissa
  lt : mantissa < 2 ^ 53

/-- Packing keeps a normal number. -/
theorem unpack_pack {mantissa : Nat} {exponent : Int} (hle : 2 ^ 52 ≤ mantissa)
    (hlt : mantissa < 2 ^ 53) (hlow : -1074 ≤ exponent) (hhigh : exponent ≤ 971)
    (hpos : 0 < mantissa) :
    (Float.Model.pack (.finite .positive mantissa exponent hpos)).unpack =
      .finite .positive mantissa exponent hpos := by
  have hlog := log2_eq hle hlt
  obtain ⟨biased, hbiased⟩ : ∃ biased : Nat, exponent + 1075 = biased :=
    ⟨(exponent + 1075).toNat, by omega⟩
  have hpack : (Float.Model.pack (.finite .positive mantissa exponent hpos)).toBits.toBitVec =
      packComponents .binary64 .positive (BitVec.ofNat 11 biased) (BitVec.ofNat 52 mantissa) := by
    show UnpackedFloat.pack .binary64 (.finite .positive mantissa exponent hpos) = _
    have hexp : (exponent + (1023 : Nat) + (52 : Nat)).toNat = biased := by omega
    unfold UnpackedFloat.pack
    dsimp only
    rw [show Format.binary64.exponentBias = 1023 from rfl, hexp, hlog]
    rw [if_neg (by omega)]
    exact if_pos rfl
  unfold Float.Model.unpack UnpackedFloat.unpack
  rw [hpack]
  simp only [unpackMantissa_packComponents, unpackExponent_packComponents,
    unpackSign_packComponents]
  have hnat : (BitVec.ofNat 11 biased).toNat = biased := by
    rw [BitVec.toNat_ofNat]
    exact Nat.mod_eq_of_lt (by omega)
  have hother : ∀ bits : BitVec 11, bits.toNat ≠ biased → BitVec.ofNat 11 biased ≠ bits :=
    fun bits hne heq => hne (heq ▸ hnat)
  have hinfinite : BitVec.ofNat 11 biased ≠ -1#11 := hother _ (show 2047 ≠ biased by omega)
  have hsubnormal : BitVec.ofNat 11 biased ≠ 0#11 := hother _ (show 0 ≠ biased by omega)
  -- The leading one is not packed; unpacking puts it back.
  have hmantissa : (1#1 ++ BitVec.ofNat 52 mantissa).toNat = mantissa := by
    rw [BitVec.toNat_append, BitVec.toNat_ofNat, BitVec.toNat_ofNat,
      ← Nat.shiftLeft_add_eq_or_of_lt (Nat.mod_lt _ (by omega))]
    omega
  have hexponent : ((BitVec.ofNat 11 biased).toNat : Int) -
      ((Format.binary64.exponentBias : Int) + (52 : Nat)) = exponent := by
    rw [hnat]
    show (biased : Int) - (1023 + 52) = exponent
    omega
  rw [if_neg hinfinite, if_neg hsubnormal]
  congr 1

theorem stands_pack {mantissa : Nat} {exponent : Int} (hpos : 0 < mantissa)
    (hle : 2 ^ 52 ≤ mantissa) (hlt : mantissa < 2 ^ 53) (hlow : -1074 ≤ exponent)
    (hhigh : exponent ≤ 971) :
    Stands (.ofModel (.pack (.finite .positive mantissa exponent hpos))) mantissa exponent :=
  ⟨⟨hpos, unpack_pack hle hlt hlow hhigh hpos⟩, hle, hlt⟩

/-- The leading one of a number can be brought to the 53rd bit. -/
theorem aligned {n : Nat} (hpos : 0 < n) (hn : n < 2 ^ 53) :
    2 ^ 52 ≤ n * 2 ^ (52 - n.log2) ∧ n * 2 ^ (52 - n.log2) < 2 ^ 53 := by
  have hlog : n.log2 ≤ 52 := Nat.lt_succ_iff.mp ((Nat.log2_lt (by omega)).mpr hn)
  constructor
  · calc
      2 ^ 52 = 2 ^ n.log2 * 2 ^ (52 - n.log2) := by rw [← pow_add, Nat.add_sub_cancel' hlog]
      _ ≤ n * 2 ^ (52 - n.log2) := Nat.mul_le_mul_right _ (Nat.log2_self_le (by omega))
  · calc
      n * 2 ^ (52 - n.log2) < 2 ^ (n.log2 + 1) * 2 ^ (52 - n.log2) :=
        Nat.mul_lt_mul_of_pos_right Nat.lt_log2_self (by positivity)
      _ = 2 ^ 53 := by rw [← pow_add]; congr 1; omega

/-- A word of at most 53 bits is converted without loss. -/
theorem stands_toFloat {n : Nat} (hpos : 0 < n) (hn : n < 2 ^ 53) :
    Stands n.toUInt64.toFloat (n * 2 ^ (52 - n.log2)) (-((52 - n.log2 : Nat) : Int)) := by
  have hlog : n.log2 ≤ 52 := Nat.lt_succ_iff.mp ((Nat.log2_lt (by omega)).mpr hn)
  obtain ⟨hle, hlt⟩ := aligned hpos hn
  have hconvert : n.toUInt64.toFloat =
      .ofModel (.pack (UnpackedFloat.round .binary64 .positive n 0)) := by
    show Float.ofModel (.pack
      (UnpackedFloat.normalize .binary64 (n.toUInt64.toNat : Int) 0 .positive)) = _
    have hsame : n.toUInt64.toNat = n := by
      show n % 2 ^ 64 = n
      omega
    have hcompare : compare (n : Int) 0 = .gt := compare_gt_iff_gt.mpr (by omega)
    rw [hsame, UnpackedFloat.normalize, hcompare]
    rfl
  have htarget : (0 - Format.binary64.targetExponent (totalExponent n 0)).toNat = 52 - n.log2 := by
    rw [targetExponent_binary64, totalExponent]
    omega
  obtain ⟨hpos', hround⟩ := roundWithAccuracy_exact .positive (-((52 - n.log2 : Nat) : Int)) 0
    hle hlt (by omega)
  rw [hconvert, UnpackedFloat.round, decreaseExponent]
  dsimp only
  rw [htarget, Nat.shiftLeft_eq, Int.zero_sub]
  rw [pow_zero, Nat.mul_one, Int.natCast_zero, Int.add_zero] at hround
  rw [hround]
  exact stands_pack hpos' hle hlt (by omega) (by omega)

theorem unpack_one :
    ∃ h, (Float.ofBits 0x3FF0000000000000).toModel.unpack = .finite .positive (2 ^ 52) (-52) h :=
  ⟨by decide, by rfl⟩

/-- A number that is not too long is the double that stands for it. -/
theorem stands_ofNat {n : Nat} (hpos : 0 < n) (hn : n < 2 ^ 53) :
    Stands (Float.ofNat n) (n * 2 ^ (52 - n.log2)) (-((52 - n.log2 : Nat) : Int)) := by
  obtain ⟨⟨hword, hunpack⟩, hle, hlt⟩ := stands_toFloat hpos hn
  obtain ⟨hone, hunpack'⟩ := unpack_one
  have hmul : Float.ofNat n =
      .ofModel (.pack (UnpackedFloat.mul .binary64 n.toUInt64.toFloat.toModel.unpack
        (Float.ofBits 0x3FF0000000000000).toModel.unpack)) := by
    show Float.ofScientific n false 0 = _
    unfold Float.ofScientific
    rw [dif_pos ⟨hn, by omega⟩]
    rfl
  obtain ⟨hpos', hround⟩ := roundWithAccuracy_exact .positive
    (-((52 - n.log2 : Nat) : Int) + -52) 52 hle hlt (by omega)
  rw [hmul, hunpack, hunpack']
  show Stands (.ofModel (.pack (roundWithAccuracy _ .positive _ _ _))) _ _
  rw [hround, show -((52 - n.log2 : Nat) : Int) + -52 + (52 : Nat) = -((52 - n.log2 : Nat) : Int) by
    omega]
  exact stands_pack hpos' hle hlt (by omega) (by omega)

/-- A longer number is the nearest double. -/
theorem stands_ofNat_of_le {n : Nat} (hle : 2 ^ 53 ≤ n) (hn : n < 2 ^ 64) :
    ∃ mantissa exponent k, Stands (Float.ofNat n) mantissa exponent ∧
      -53 ≤ exponent ∧ exponent ≤ 12 ∧ Nearest k n (mantissa * 2 ^ exponent) := by
  have hlog : (n <<< 53 * 10 ^ 0).log2 ≤ 116 := by
    have hlt : n <<< 53 * 10 ^ 0 < 2 ^ 117 := by
      rw [Nat.shiftLeft_eq]
      omega
    have := (Nat.log2_lt (by rw [Nat.shiftLeft_eq]; omega)).mpr hlt
    omega
  have hscientific : Float.ofNat n = .ofModel (.pack
      (roundWithAccuracy .binary64 .positive (n <<< 53 * 10 ^ 0) (-53 + 0) .exact)) := by
    show Float.ofScientific n false 0 = _
    unfold Float.ofScientific
    rw [dif_neg (by omega)]
    show Float.ofModel (.pack (UnpackedFloat.ofScientific .binary64 n 0)) = _
    unfold UnpackedFloat.ofScientific
    have hbits : (2 : Int) ^ Format.binary64.exponentBits = 2048 := by rfl
    rw [dif_neg (by omega), hbits, if_neg (by omega), if_neg (by omega), if_pos (le_refl _)]
    rfl
  obtain ⟨m, e, hpos, hround, hm, hm', he, he', k, hnearest⟩ :=
    roundWithAccuracy_eq (cut_exact (n <<< 53 * 10 ^ 0)) (by rw [Nat.shiftLeft_eq]; omega)
      (show -1074 ≤ -53 + 0 by omega) .positive
  have hvalue : ((n <<< 53 * 10 ^ 0 : Nat) : Rat) * 2 ^ (-53 + 0 : Int) = n := by
    rw [Nat.shiftLeft_eq, Int.add_zero, zpow_neg]
    push_cast
    field_simp
  rw [hvalue] at hnearest
  rw [hscientific, hround]
  exact ⟨m, e, k, stands_pack hpos hm hm' (by omega) (by omega), by omega, by omega, hnearest⟩

theorem Nearest.self {r : Nat} (hle : 2 ^ 52 ≤ r) (hlt : r < 2 ^ 53) (k : Int) :
    Nearest k (r * 2 ^ k) (r * 2 ^ k) where
  le := mul_le_mul_of_nonneg_right (by exact_mod_cast hle) (two_zpow_pos k).le
  lt := mul_lt_mul_of_pos_right (by exact_mod_cast hlt) (two_zpow_pos k)
  grid := ⟨r, hle, hlt.le, rfl⟩
  close := by
    rw [sub_self, abs_zero]
    exact (half_pos (two_zpow_pos k)).le

/-- Every number in a word is converted to the nearest double. -/
theorem exists_stands_ofNat {n : Nat} (hpos : 0 < n) (hn : n < 2 ^ 64) :
    ∃ mantissa exponent k, Stands (Float.ofNat n) mantissa exponent ∧
      -53 ≤ exponent ∧ exponent ≤ 12 ∧ Nearest k n (mantissa * 2 ^ exponent) := by
  rcases Nat.lt_or_ge n (2 ^ 53) with hlt | hge
  · have hvalue : ((n * 2 ^ (52 - n.log2) : Nat) : Rat) * 2 ^ (-((52 - n.log2 : Nat) : Int)) =
        n := by
      rw [zpow_neg, zpow_natCast]
      push_cast
      field_simp
    obtain ⟨hle, hlt'⟩ := aligned hpos hlt
    have hself := Nearest.self hle hlt' (-((52 - n.log2 : Nat) : Int))
    rw [hvalue] at hself
    refine ⟨_, _, -((52 - n.log2 : Nat) : Int), stands_ofNat hpos hlt, by omega, by omega, ?_⟩
    rw [hvalue]
    exact hself
  · exact stands_ofNat_of_le hge hn

theorem stands_thousand : Stands (Float.ofNat 1000) (1000 * 2 ^ 43) (-43) := by
  have hstands := stands_ofNat (show 0 < 1000 by omega) (by omega)
  rwa [show (1000 : Nat).log2 = 9 by decide] at hstands

theorem divCore_thousand {mantissa : Nat} {exponent : Int} (hle : 2 ^ 52 ≤ mantissa)
    (hlt : mantissa < 2 ^ 53) (hlow : -53 ≤ exponent) :
    divCore .binary64 mantissa exponent (1000 * 2 ^ 43) (-43) =
      (mantissa * 2 ^ 53 / (1000 * 2 ^ 43), exponent - 10,
        accuracyOfFraction (mantissa * 2 ^ 53 % (1000 * 2 ^ 43)) (1000 * 2 ^ 43)) := by
  have htarget : min (exponent - -43) (Format.binary64.targetExponent
      (totalExponent mantissa exponent - totalExponent (1000 * 2 ^ 43) (-43))) = exponent - 10 := by
    rw [targetExponent_binary64, totalExponent, totalExponent, log2_eq hle hlt,
      show (1000 * 2 ^ 43 : Nat).log2 = 52 by decide]
    omega
  have hshift : (exponent - -43 - (exponent - 10)).toNat = 53 := by omega
  unfold divCore
  rw [htarget]
  dsimp only
  rw [hshift, Nat.shiftLeft_eq]

/-- A quotient by one thousand is the nearest double. -/
theorem Stands.div_thousand {x : Float} {mantissa : Nat} {exponent : Int}
    (h : Stands x mantissa exponent) (hlow : -53 ≤ exponent) (hhigh : exponent ≤ 12) :
    ∃ mantissa' exponent' k, Stands (x / Float.ofNat 1000) mantissa' exponent' ∧
      Nearest k (mantissa * 2 ^ exponent / 1000) (mantissa' * 2 ^ exponent') := by
  obtain ⟨⟨hpos, hunpack⟩, hle, hlt⟩ := h
  obtain ⟨⟨hpos', hunpack'⟩, -, -⟩ := stands_thousand
  have hlong : 2 ^ 52 ≤ mantissa * 2 ^ 53 / (1000 * 2 ^ 43) := by omega
  have hlog : (mantissa * 2 ^ 53 / (1000 * 2 ^ 43)).log2 < 54 :=
    (Nat.log2_lt (by omega)).mpr (by omega)
  obtain ⟨m, e, hm, hround, hge, hm', he, he', k, hnearest⟩ :=
    roundWithAccuracy_eq (cut_fraction (mantissa * 2 ^ 53) (show 0 < 1000 * 2 ^ 43 by omega)) hlong
      (show -1074 ≤ exponent - 10 by omega) .positive
  have hdiv : x / Float.ofNat 1000 = .ofModel (.pack (.finite .positive m e hm)) := by
    show Float.ofModel (.pack (UnpackedFloat.div .binary64 x.toModel.unpack
      (Float.ofNat 1000).toModel.unpack)) = _
    rw [hunpack, hunpack', UnpackedFloat.div, divCore_thousand hle hlt hlow, ← hround]
    rfl
  have hvalue : ((mantissa * 2 ^ 53 : Nat) : Rat) / ((1000 * 2 ^ 43 : Nat) : Rat) *
      2 ^ (exponent - 10) = mantissa * 2 ^ exponent / 1000 := by
    rw [zpow_sub₀ two_ne_zero]
    push_cast
    field_simp
    norm_num
  rw [hvalue] at hnearest
  rw [hdiv]
  exact ⟨m, e, k, stands_pack hm hge hm' (by omega) (by omega), hnearest⟩

/-! ### Order -/

variable {x x' z : Float} {mantissa mantissa' : Nat} {exponent exponent' : Int}

/-- Of two doubles the one with the larger exponent is larger, and of the same exponent the one with
the larger mantissa. -/
theorem Stands.le_cases (h : Stands x mantissa exponent) (h' : Stands x' mantissa' exponent')
    (hle : (mantissa : Rat) * 2 ^ exponent ≤ mantissa' * 2 ^ exponent') :
    exponent < exponent' ∨ exponent = exponent' ∧ mantissa ≤ mantissa' := by
  rcases lt_trichotomy exponent exponent' with hlt | rfl | hgt
  · exact .inl hlt
  · exact .inr ⟨rfl, by exact_mod_cast le_of_mul_le_mul_right hle (two_zpow_pos exponent)⟩
  · exfalso
    have hm : (2 : Rat) ^ 52 ≤ mantissa := by exact_mod_cast h.le
    have hm' : (mantissa' : Rat) < 2 ^ 53 := by exact_mod_cast h'.lt
    have hbelow := mul_le_mul_of_nonneg_right hm (two_zpow_pos exponent).le
    have habove := mul_lt_mul_of_pos_right hm' (two_zpow_pos exponent')
    have hstep := two_zpow_succ_le hgt
    linarith

theorem Stands.div_eq (h : Stands x mantissa exponent) (h' : Stands x' mantissa' exponent')
    (heq : (mantissa : Rat) * 2 ^ exponent = mantissa' * 2 ^ exponent') (y : Float) :
    x / y = x' / y := by
  have hbelow := h.le_cases h' heq.le
  have habove := h'.le_cases h heq.ge
  obtain rfl : mantissa = mantissa' := by omega
  obtain rfl : exponent = exponent' := by omega
  obtain ⟨⟨_, hunpack⟩, -, -⟩ := h
  obtain ⟨⟨_, hunpack'⟩, -, -⟩ := h'
  show Float.ofModel (.pack (UnpackedFloat.div .binary64 x.toModel.unpack y.toModel.unpack)) =
    .ofModel (.pack (UnpackedFloat.div .binary64 x'.toModel.unpack y.toModel.unpack))
  rw [hunpack, hunpack']

theorem lt_iff : z < x ↔ z.toModel.unpack.compare x.toModel.unpack = some .lt := by
  show Float.lt z x = true ↔ _
  unfold Float.lt
  rw [decide_eq_true_iff]
  show (z.toModel.unpack.compare x.toModel.unpack == some .lt) = true ↔ _
  exact beq_iff_eq

/-- What is less than a double is less than one that stands for no less. -/
theorem Stands.lt_of_lt (h : Stands x mantissa exponent) (h' : Stands x' mantissa' exponent')
    (hle : (mantissa : Rat) * 2 ^ exponent ≤ mantissa' * 2 ^ exponent') (hlt : z < x) : z < x' := by
  have hcases := h.le_cases h' hle
  obtain ⟨⟨_, hunpack⟩, -, -⟩ := h
  obtain ⟨⟨_, hunpack'⟩, -, -⟩ := h'
  rw [lt_iff, hunpack] at hlt
  rw [lt_iff, hunpack']
  revert hlt
  rcases z.toModel.unpack with sign | _ | sign | ⟨sign, m, e, _⟩
  · cases sign <;> exact id
  · exact id
  · exact id
  · cases sign with
    | negative => exact id
    | positive =>
        simp only [UnpackedFloat.compare, Option.some.injEq, Ordering.then_eq_lt, compare_lt_iff_lt,
          compare_eq_iff_eq]
        omega

/-- What is less than zero is less than a positive double. -/
theorem Stands.lt_of_lt_zero (h : Stands x mantissa exponent)
    (hzero : x'.toModel.unpack = .zero .positive) (hlt : z < x') : z < x := by
  obtain ⟨⟨_, hunpack⟩, -, -⟩ := h
  rw [lt_iff, hzero] at hlt
  rw [lt_iff, hunpack]
  revert hlt
  rcases z.toModel.unpack with sign | _ | sign | ⟨sign, m, e, _⟩
  · cases sign <;> exact id
  · exact id
  · intro hlt
    cases hlt
  · cases sign with
    | negative => exact id
    | positive =>
        intro hlt
        cases hlt

/-! ### Whole numbers over one thousand -/

theorem unpack_zero : (Float.ofNat 0 / Float.ofNat 1000).toModel.unpack = .zero .positive := by
  rfl

/-- A larger number over one thousand is no less: whatever was less is still less. -/
theorem lt_thousandths {a b : Nat} (hle : a ≤ b) (hb : b < 2 ^ 64)
    (hlt : z < Float.ofNat a / Float.ofNat 1000) : z < Float.ofNat b / Float.ofNat 1000 := by
  rcases hle.eq_or_lt with rfl | hab
  · exact hlt
  obtain ⟨mb, eb, kb, hstands, hlow, hhigh, hnearest⟩ := exists_stands_ofNat (by omega) hb
  rcases Nat.eq_zero_or_pos a with rfl | hpos
  · obtain ⟨m, e, -, hdiv, -⟩ := hstands.div_thousand hlow hhigh
    exact hdiv.lt_of_lt_zero unpack_zero hlt
  · obtain ⟨ma, ea, ka, hstands', hlow', hhigh', hnearest'⟩ :=
      exists_stands_ofNat hpos (hab.trans hb)
    have hvalue := hnearest'.mono hnearest (by exact_mod_cast hab)
    obtain ⟨m', e', k', hdiv', hdivided'⟩ := hstands'.div_thousand hlow' hhigh'
    obtain ⟨m, e, k, hdiv, hdivided⟩ := hstands.div_thousand hlow hhigh
    rcases hvalue.eq_or_lt with heq | hlt'
    · rwa [hstands'.div_eq hstands heq] at hlt
    · exact hdiv'.lt_of_lt hdiv (hdivided'.mono hdivided (by linarith)) hlt

end StreamPlacement.Double
