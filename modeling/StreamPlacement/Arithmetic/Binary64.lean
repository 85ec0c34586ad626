import StreamPlacement.Arithmetic.Rounding

/-!
A double as the number it stands for: a sign, a whole significand and a power of two. Truncation
and rounding are done here in natural numbers, where they are exact and can be reasoned about.
-/

namespace StreamPlacement

/-- The largest value of an unsigned 64-bit word; larger whole numbers saturate to it. -/
def wordMax : Nat := Nat.pow 2 64 - 1

/-- What the 64 bits of a double stand for. -/
inductive Binary64
  /-- The number `± significand * 2 ^ exponent`. -/
  | finite (negative : Bool) (significand : Nat) (exponent : Int)
  | infinite (negative : Bool)
  | notANumber
  deriving DecidableEq, Repr

namespace Binary64

/-- Splits the bits into sign, exponent and significand; the leading one of a normal number is made
explicit, and subnormal numbers keep the least exponent. -/
def ofBits (bits : Nat) : Binary64 :=
  let negative := bits / Nat.pow 2 63 % 2 == 1
  let biased : Nat := bits / Nat.pow 2 52 % Nat.pow 2 11
  let fraction : Nat := bits % Nat.pow 2 52
  if biased = 2047 then
    if fraction = 0 then .infinite negative else .notANumber
  else if biased = 0 then .finite negative fraction (-1074)
  else .finite negative (fraction + Nat.pow 2 52) ((biased : Int) - 1075)

def ofFloat (x : Float) : Binary64 := ofBits x.toBits.toNat

/-- The size of `significand * 2 ^ exponent` as a fraction, numerator and denominator. -/
def magnitude (significand : Nat) (exponent : Int) : Nat × Nat :=
  if exponent < 0 then (significand, Nat.pow 2 exponent.natAbs)
  else (significand * Nat.pow 2 exponent.natAbs, 1)

theorem magnitude_den_pos (significand : Nat) (exponent : Int) :
    0 < (magnitude significand exponent).2 := by
  unfold magnitude
  split
  · exact Nat.two_pow_pos _
  · exact Nat.one_pos

/-- The whole number that `whole` makes of the size of a double, kept within an unsigned word:
nothing below zero, `wordMax` above the range, and zero for what is not a number. -/
def toWord (whole : Nat → Nat → Nat) : Binary64 → Nat
  | .finite false significand exponent =>
    let size := magnitude significand exponent
    min wordMax (whole size.1 size.2)
  | .finite true _ _ => 0
  | .infinite negative => if negative then 0 else wordMax
  | .notANumber => 0

/-- Drops the fraction. -/
def truncate : Binary64 → Nat := toWord (· / ·)

/-- Rounds to the nearest whole number, a half upwards. -/
def round : Binary64 → Nat := toWord (roundDiv · · .up)

theorem toWord_le (whole : Nat → Nat → Nat) (x : Binary64) : x.toWord whole ≤ wordMax := by
  unfold toWord
  split
  · exact Nat.min_le_left ..
  · exact Nat.zero_le _
  · split
    · exact Nat.zero_le _
    · exact Nat.le_refl _
  · exact Nat.zero_le _

end Binary64

end StreamPlacement
