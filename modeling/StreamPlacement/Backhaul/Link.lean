import StreamPlacement.Arithmetic.Quantity
import StreamPlacement.Ident

/-!
Links of the backhaul. A link is stored once, with the orientation it was declared in, and found
from either end.
-/

namespace StreamPlacement

/-- A physical link. -/
structure Link (α : Type) where
  src : NodeId
  dst : NodeId
  /-- Capacity in bit/s. -/
  rate : α
  delay : α
  /-- The share of packets that is lost, between zero and one. -/
  loss : α
  bufferSize : Nat

namespace Link

variable {α : Type}

/-- The link in its declared orientation. -/
def edge (link : Link α) : Edge := (link.src, link.dst)

/-- Whether the link joins the two ends of `e`, whichever way it was declared. -/
def joins (link : Link α) (e : Edge) : Bool := link.edge == e || link.edge == e.swap

/-- Capacity in Mbit/s. -/
def capacityMbps [Quantity α] (link : Link α) : α := link.rate / Quantity.ofNat 1000000

end Link

end StreamPlacement
