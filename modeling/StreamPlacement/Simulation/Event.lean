import StreamPlacement.Ident

/-!
What can happen in a run.
-/

namespace StreamPlacement

/-- Something the control plane reacts to. -/
inductive Event
  /-- A viewer starts a session; without a server the origin is asked. -/
  | arrival (user : UserId) (content : ContentId) (server : Option NodeId)
  /-- Bytes seen on a link since the last event. -/
  | traffic (edge : Edge) (bytes : Nat)
  /-- The end of a monitor interval. -/
  | tick
  /-- Every chosen server is switched on. -/
  | activation
  deriving DecidableEq, Repr

/-- An event and its time in seconds. -/
structure TimedEvent (α : Type) where
  time : α
  event : Event

end StreamPlacement
