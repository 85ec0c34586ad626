import StreamPlacement.Arithmetic.Rounding

/-!
The shortest decimal that reads back as the same double. A double stands for an interval of reals,
those that round to it; among the decimals in that interval the one on the coarsest grid of powers
of ten is taken, and on that grid the one nearest to the double itself.
-/

namespace StreamPlacement.Decimal

/-- The reals that round to one double, in units of a quarter of its last place: the double itself
and the two ends, which belong to the interval when the significand is even. -/
structure RoundingInterval where
  middle : Nat
  low : Nat
  high : Nat
  closed : Bool
  /-- The power of two of the unit. -/
  exponent : Int

/-- The interval of `significand * 2 ^ exponent`. Below a power of two the doubles are twice as
dense, so there the lower end is half as far away. -/
def RoundingInterval.of (significand : Nat) (exponent : Int) : RoundingInterval where
  middle := 4 * significand
  low := if significand = Nat.pow 2 52 ∧ -1074 < exponent then 4 * significand - 1
    else 4 * significand - 2
  high := 4 * significand + 2
  closed := significand % 2 = 0
  exponent := exponent - 2

/-- The multiple of `10 ^ place` in the interval that is nearest to its middle, in units of that
power. Only the two neighbours of the middle need to be tried; of two at the same distance `tie`
decides. -/
def RoundingInterval.onGrid? (r : RoundingInterval) (place : Int) (tie : Tie) : Option Nat :=
  let scale := Nat.pow 2 r.exponent.toNat * Nat.pow 10 (-place).toNat
  let unit := Nat.pow 2 (-r.exponent).toNat * Nat.pow 10 place.toNat
  let below := r.middle * scale / unit
  let inside (n : Nat) : Bool :=
    if r.closed then r.low * scale ≤ n * unit && n * unit ≤ r.high * scale
    else r.low * scale < n * unit && n * unit < r.high * scale
  match inside below, inside (below + 1) with
  | true, true => some (roundDiv (r.middle * scale) unit tie)
  | true, false => some below
  | false, true => some (below + 1)
  | false, false => none

/-- Tries the grids from `10 ^ place` downwards. -/
def RoundingInterval.search (r : RoundingInterval) (tie : Tie) : Nat → Int → Nat × Int
  | 0, place => (r.middle, place)
  | steps + 1, place =>
    match r.onGrid? place tie with
    | some n => (n, place)
    | none => r.search tie steps (place - 1)

/-- The digits, as one number, and the power of ten of the shortest decimal that reads back as
`significand * 2 ^ exponent`. The search starts two places above the first digit; seventeen digits
always suffice. -/
def shortest (significand : Nat) (exponent : Int) (tie : Tie) : Nat × Int :=
  if significand = 0 then (0, 0)
  else
    let bits : Int := Nat.log2 significand + 1 + exponent
    (RoundingInterval.of significand exponent).search tie 24 (bits * 30103 / 100000 + 1)

example : shortest 1 (-1074) .up = (5, -324) := by decide +kernel
example : shortest 5404319552844595 (-53) .up = (6, -1) := by decide +kernel

end StreamPlacement.Decimal
