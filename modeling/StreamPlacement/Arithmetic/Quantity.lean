import StreamPlacement.Arithmetic.Binary64

/-!
The numbers that rates, loads and times are measured in.

The whole library is written over this class. It runs on doubles, whose every operation rounds, and
its laws about sums of loads are stated over the exact rationals, where sums do not depend on their
order.
-/

namespace StreamPlacement

/-- Numbers with arithmetic, a decidable order, and the two ways back to a whole number. -/
class Quantity (α : Type) extends Zero α, Add α, Sub α, Mul α, Div α, LT α, LE α where
  /-- The quantity of `n` units. -/
  ofNat : Nat → α
  /-- The whole part, zero below zero, at most `wordMax`. -/
  truncate : α → Nat
  /-- The nearest whole number, a half upwards, zero below zero, at most `wordMax`. -/
  round : α → Nat
  decidableLT : DecidableLT α
  decidableLE : DecidableLE α

namespace Quantity

instance {α : Type} [Quantity α] : DecidableLT α := decidableLT
instance {α : Type} [Quantity α] : DecidableLE α := decidableLE

/-- The larger of a quantity and zero; what is not a number counts as zero. -/
def atLeastZero {α : Type} [Quantity α] (x : α) : α := if 0 < x then x else 0

/-- Doubles, with the rounding of every operation. -/
instance : Quantity Float where
  ofNat n := Float.ofNat n
  truncate x := (Binary64.ofFloat x).truncate
  round x := (Binary64.ofFloat x).round
  decidableLT := inferInstance
  decidableLE := inferInstance

/-- Exact rationals. -/
instance : Quantity Rat where
  zero := 0
  ofNat n := (n : Rat)
  truncate x := min wordMax x.floor.toNat
  round x := min wordMax (x + 1 / 2).floor.toNat
  decidableLT := inferInstance
  decidableLE := inferInstance

end Quantity

end StreamPlacement
