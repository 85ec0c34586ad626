/-!
One-to-one pairings. A pair is taken up only while both of its sides are still free, so either side
determines the other.
-/

namespace StreamPlacement

/-- Pairs in the order in which they were made. -/
structure Pairing (α β : Type) where
  pairs : List (α × β) := []
  deriving Inhabited

namespace Pairing

variable {α β : Type} [DecidableEq α] [DecidableEq β]

/-- The partner of a left side. -/
def right? (p : Pairing α β) (a : α) : Option β := (p.pairs.find? (·.1 = a)).map Prod.snd

/-- The partner of a right side. -/
def left? (p : Pairing α β) (b : β) : Option α := (p.pairs.find? (·.2 = b)).map Prod.fst

/-- Pairs `a` with `b` if neither has a partner yet, and changes nothing otherwise. -/
def join (p : Pairing α β) (a : α) (b : β) : Pairing α β :=
  if p.pairs.any (fun pair => pair.1 = a ∨ pair.2 = b) then p else ⟨p.pairs ++ [(a, b)]⟩

end Pairing

end StreamPlacement
