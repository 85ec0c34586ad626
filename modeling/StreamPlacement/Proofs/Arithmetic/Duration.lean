import Mathlib.Algebra.Order.Field.Rat
import Mathlib.Tactic.FieldSimp
import Mathlib.Tactic.Linarith
import Mathlib.Tactic.NormNum
import Mathlib.Tactic.Positivity
import StreamPlacement.Arithmetic.Duration
import StreamPlacement.Proofs.Arithmetic.Bits

/-!
Spans of time from seconds that are given as doubles.

Seconds are converted to the nearest whole nanosecond. The conversion knows an upper limit, and since
doubles are 2048 apart below it, rounding never carries across it: a span is refused exactly if it is
at the limit or beyond. It knows no lower limit, so half a nanosecond and less become no time at all.
-/

namespace StreamPlacement

/-! ### What a double stands for -/

namespace Binary64

/-- The number that a finite double stands for. -/
def value? : Binary64 → Option Rat
  | .finite negative significand exponent =>
    some ((if negative then -1 else 1) * significand * 2 ^ exponent)
  | _ => none

theorem finite_of_value {y : Binary64} {q : Rat} (h : y.value? = some q) :
    ∃ negative significand exponent, y = .finite negative significand exponent ∧
      q = (if negative then -1 else 1) * significand * 2 ^ exponent := by
  cases y with
  | finite negative significand exponent =>
      exact ⟨negative, significand, exponent, rfl, (Option.some.inj h).symm⟩
  | infinite => cases h
  | notANumber => cases h

/-- A finite double is positive exactly if what it stands for is. -/
theorem pos_iff_of_value {x : Float} {q : Rat} (h : (ofFloat x).value? = some q) :
    0 < x ↔ 0 < q := by
  obtain ⟨negative, significand, exponent, hx, rfl⟩ := finite_of_value h
  have hpow : (0 : Rat) < 2 ^ exponent := zpow_pos two_pos exponent
  rw [Double.pos_iff_of_finite hx, mul_pos_iff_of_pos_right hpow]
  cases negative with
  | false => simp
  | true => simp

theorem magnitude_value (significand : Nat) (exponent : Int) :
    ((magnitude significand exponent).1 : Rat) / (magnitude significand exponent).2 =
      significand * 2 ^ exponent := by
  unfold magnitude
  split
  · next hneg =>
      obtain ⟨n, hn⟩ : ∃ n : Nat, exponent = -n := ⟨exponent.natAbs, by omega⟩
      rw [hn, Int.natAbs_neg, Int.natAbs_natCast, Nat.pow_eq, zpow_neg, zpow_natCast]
      push_cast
      rfl
  · next hneg =>
      obtain ⟨n, hn⟩ : ∃ n : Nat, exponent = n := ⟨exponent.natAbs, by omega⟩
      rw [hn, Int.natAbs_natCast, Nat.pow_eq, zpow_natCast]
      push_cast
      rw [div_one]

/-- Below `2 ^ 64` a double with 53 bits is at most `2 ^ 64 - 2 ^ 11`. -/
theorem value_le {significand : Nat} {exponent : Int} (hshort : significand < 2 ^ 53)
    (hlt : (significand : Rat) * 2 ^ exponent < 2 ^ 64) :
    (significand : Rat) * 2 ^ exponent ≤ 2 ^ 64 - 2 ^ 11 := by
  rcases lt_or_ge exponent 12 with hsmall | hlarge
  · have hpow : (2 : Rat) ^ exponent ≤ 2 ^ (11 : Int) :=
      zpow_le_zpow_right₀ (by norm_num) (by omega)
    have hsignificand : (significand : Rat) ≤ 2 ^ 53 - 1 := by
      have : significand + 1 ≤ 2 ^ 53 := hshort
      have : ((significand + 1 : Nat) : Rat) ≤ ((2 ^ 53 : Nat) : Rat) := by exact_mod_cast this
      push_cast at this
      linarith
    calc (significand : Rat) * 2 ^ exponent
        ≤ (2 ^ 53 - 1) * 2 ^ (11 : Int) :=
          mul_le_mul hsignificand hpow (by positivity) (by norm_num)
      _ = 2 ^ 64 - 2 ^ 11 := by norm_num
  · -- A multiple of `2 ^ 12` below `2 ^ 64` is at least `2 ^ 12` below it.
    obtain ⟨n, rfl⟩ : ∃ n : Nat, exponent = 12 + n := ⟨(exponent - 12).toNat, by omega⟩
    rw [zpow_add₀ (by norm_num), zpow_natCast] at hlt ⊢
    have hwhole : significand * 2 ^ n < 2 ^ 52 := by
      have : ((significand * 2 ^ n : Nat) : Rat) < ((2 ^ 52 : Nat) : Rat) := by
        push_cast
        norm_num at hlt ⊢
        linarith
      exact_mod_cast this
    have hbelow : ((significand * 2 ^ n : Nat) : Rat) + 1 ≤ 2 ^ 52 := by exact_mod_cast hwhole
    push_cast at hbelow
    norm_num at hbelow ⊢
    linarith

end Binary64

/-! ### Rounding -/

variable {num den : Nat}

/-- The nearest whole number is at most one half away. -/
theorem abs_roundDiv_sub_le (tie : Tie) (h : 0 < den) :
    |(roundDiv num den tie : Rat) - num / den| ≤ 1 / 2 := by
  obtain ⟨habove, hbelow⟩ := roundDiv_near num den tie h
  have hden : (0 : Rat) < den := by exact_mod_cast h
  have habove' : (2 * num : Rat) ≤ den * (2 * roundDiv num den tie + 1) := by exact_mod_cast habove
  have hbelow' : (den * (2 * roundDiv num den tie) : Rat) ≤ 2 * num + den := by
    exact_mod_cast hbelow
  have hle : (num : Rat) / den ≤ roundDiv num den tie + 1 / 2 := by
    rw [div_le_iff₀ hden]
    linarith
  have hge : (roundDiv num den tie : Rat) - 1 / 2 ≤ num / den := by
    rw [le_div_iff₀ hden]
    linarith
  rw [abs_le]
  constructor <;> linarith

/-- Only one half and less is rounded to zero where a half goes to the even neighbour. -/
theorem roundDiv_even_eq_zero_iff (h : 0 < den) :
    roundDiv num den .even = 0 ↔ (num : Rat) / den ≤ 1 / 2 := by
  have hden : (0 : Rat) < den := by exact_mod_cast h
  have hhalf : (num : Rat) / den ≤ 1 / 2 ↔ 2 * num ≤ den := by
    rw [div_le_div_iff₀ hden two_pos, mul_comm, one_mul]
    exact_mod_cast Iff.rfl
  have hdiv : den * (num / den) + num % den = num := Nat.div_add_mod num den
  rw [hhalf, roundDiv]
  rcases Nat.eq_zero_or_pos (num / den) with hzero | hpos
  · rw [hzero, Nat.mul_zero, Nat.zero_add] at hdiv
    rw [hzero, hdiv]
    split
    · omega
    split <;> omega
  · have hle : den ≤ den * (num / den) := Nat.le_mul_of_pos_right den hpos
    split
    · omega
    split <;> omega

namespace Duration

variable {x : Float} {q : Rat}

/-- A positive double is refused or rounded, depending on where its rounded value lies. -/
theorem ofSeconds_of_pos (hpos : 0 < x) (hvalue : (Binary64.ofFloat x).value? = some q) :
    (q < 2 ^ 64 → q ≤ 2 ^ 64 - 2 ^ 11) ∧ ∃ nanoseconds : Nat,
      |(nanoseconds : Rat) - q * 10 ^ 9| ≤ 1 / 2 ∧
      (nanoseconds = 0 ↔ q * 10 ^ 9 ≤ 1 / 2) ∧
      ofSeconds x =
        if Nat.pow 2 64 * nanosPerSecond ≤ nanoseconds then .error (.breakdown .beyondClock)
        else .ok ⟨nanoseconds⟩ := by
  obtain ⟨negative, significand, exponent, hx, hq⟩ := Binary64.finite_of_value hvalue
  obtain ⟨rfl, -⟩ := (Double.pos_iff_of_finite hx).mp hpos
  rw [if_neg Bool.false_ne_true, one_mul] at hq
  have hscaled : q * 10 ^ 9 =
      (((Binary64.magnitude significand exponent).1 * nanosPerSecond : Nat) : Rat) /
        (Binary64.magnitude significand exponent).2 := by
    rw [hq, ← Binary64.magnitude_value, nanosPerSecond]
    push_cast
    ring
  refine ⟨fun hlt => ?_, roundDiv
    ((Binary64.magnitude significand exponent).1 * nanosPerSecond)
    (Binary64.magnitude significand exponent).2 .even, ?_, ?_, ?_⟩
  · rw [hq] at hlt ⊢
    exact Binary64.value_le (Double.significand_lt hx) hlt
  · exact hscaled ▸ abs_roundDiv_sub_le .even (Binary64.magnitude_den_pos ..)
  · exact hscaled ▸ roundDiv_even_eq_zero_iff (Binary64.magnitude_den_pos ..)
  · unfold ofSeconds
    rw [hx]
    dsimp only
    simp only [Bool.false_and, Bool.false_or, decide_eq_true_eq]

/-- A positive number of seconds below `2 ^ 64` is rounded to the nearest nanosecond, which is none
at all for half a nanosecond and less. There is no span of more seconds. -/
theorem ofSeconds_of_value (hpos : 0 < x) (hvalue : (Binary64.ofFloat x).value? = some q) :
    (2 ^ 64 ≤ q → ofSeconds x = .error (.breakdown .beyondClock)) ∧
      (q < 2 ^ 64 → ∃ d, ofSeconds x = .ok d ∧
        |(d.nanoseconds : Rat) - q * 10 ^ 9| ≤ 1 / 2 ∧
        (d.nanoseconds = 0 ↔ q * 10 ^ 9 ≤ 1 / 2)) := by
  obtain ⟨hgap, nanoseconds, hnear, hzero, hspan⟩ := ofSeconds_of_pos hpos hvalue
  have hlimit : ((Nat.pow 2 64 * nanosPerSecond : Nat) : Rat) = 2 ^ 64 * 10 ^ 9 := by
    rw [Nat.pow_eq, nanosPerSecond]
    norm_num
  rw [abs_le] at hnear
  constructor
  · intro hlarge
    -- The limit is a whole number, so what is rounded to less was less.
    have hle : ((Nat.pow 2 64 * nanosPerSecond : Nat) : Rat) < ((nanoseconds + 1 : Nat) : Rat) := by
      rw [hlimit]
      push_cast
      linarith
    rw [hspan, if_pos (Nat.lt_succ_iff.mp (by exact_mod_cast hle))]
  · intro hsmall
    have hlt : ((nanoseconds : Nat) : Rat) < ((Nat.pow 2 64 * nanosPerSecond : Nat) : Rat) := by
      rw [hlimit]
      linarith [hgap hsmall]
    refine ⟨⟨nanoseconds⟩, ?_, abs_le.mpr hnear, hzero⟩
    rw [hspan, if_neg (Nat.not_le.mpr (by exact_mod_cast hlt))]

end Duration

end StreamPlacement
