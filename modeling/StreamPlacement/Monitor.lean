import StreamPlacement.Placement.Escalation

/-!
The monitor counts the bytes on every link and, once per interval, turns the counts into throughput
and reports the links over their limit.
-/

namespace StreamPlacement

/-- Where the byte counts come from. -/
inductive TrafficModel
  /-- From the demand of the groups, before every sample. -/
  | estimated
  /-- From recorded traffic only. -/
  | recorded
  deriving DecidableEq, Repr, Inhabited

/-- How the monitor works. -/
structure MonitorSettings (α : Type) where
  /-- The length of an interval in seconds. -/
  interval : α
  /-- One limit for every link in Mbit/s; without it the limit is the link's capacity. -/
  threshold : Option α := none
  /-- Whether links over their limit are reported at all. -/
  redirect : Bool := true
  traffic : TrafficModel := .estimated

/-- A link under observation and the bytes seen on it in this interval. -/
structure MonitoredLink (α : Type) where
  edge : Edge
  capacityMbps : α
  bytes : Nat := 0

/-- A link over its limit. -/
structure Signal (α : Type) where
  address : Address
  edge : Edge
  throughputMbps : α

/-- The links under observation, by address. -/
structure Monitor (α : Type) where
  settings : MonitorSettings α
  links : OrderedMap Address (MonitoredLink α) := ∅

namespace Monitor

variable {α : Type}

/-- Observes a link from now on. -/
def register (m : Monitor α) (address : Address) (edge : Edge) (capacityMbps : α) : Monitor α :=
  { m with links := m.links.insert address { edge, capacityMbps } }

/-- Observes every link of a topology under its address. -/
def registerAll [Quantity α] (m : Monitor α) (t : Topology α) (book : AddressBook) : Monitor α :=
  book.links.pairs.foldl (fun m (e, address) =>
    m.register address e (((t.link? e).map Link.capacityMbps).getD 0)) m

/-- Counts bytes on the link at an address, up to the largest word. The answer says whether the
address is under observation. -/
def record (m : Monitor α) (address : Address) (bytes : Nat) : Bool × Monitor α :=
  if m.links.contains address then
    (true, { m with
      links := m.links.modify address fun link =>
        { link with bytes := min wordMax (link.bytes + bytes) } })
  else (false, m)

/-- Counts bytes on the link between the ends of `e`, whichever way it was declared. -/
def recordLink (m : Monitor α) (book : AddressBook) (e : Edge) (bytes : Nat) : Bool × Monitor α :=
  match (book.linkAddress? e).orElse fun _ => book.linkAddress? e.swap with
  | some address => m.record address bytes
  | none => (false, m)

variable [Quantity α]

/-- The throughput of a count over one interval, in Mbit/s. -/
def throughput (m : Monitor α) (bytes : Nat) : α :=
  Quantity.ofNat bytes * Quantity.ofNat 8 / (Quantity.ofNat 1000000 * m.settings.interval)

/-- The limit of a link in Mbit/s. -/
def limit (m : Monitor α) (link : MonitoredLink α) : α :=
  m.settings.threshold.getD link.capacityMbps

/-- The links over their limit, in order of their addresses. -/
def exceeding (m : Monitor α) : List (Signal α) :=
  m.links.entries.filterMap fun (address, link) =>
    let throughputMbps := m.throughput link.bytes
    if m.limit link < throughputMbps then
      some { address, edge := link.edge, throughputMbps }
    else none

/-- Closes the interval: all counts start again from zero. -/
def sample (m : Monitor α) : List (Signal α) × Monitor α :=
  (if m.settings.redirect then m.exceeding else [],
    { m with links := m.links.map fun _ link => { link with bytes := 0 } })

/-- Has every signal reacted to, one after the other. A signal whose reaction fails leaves no
answer, and the others are still reacted to. -/
def handle : List (Signal α) → Placement α → List Reaction × Placement α
  | [], p => ([], p)
  | signal :: rest, p =>
    let (p, outcome) := p.react signal.edge
    let (reactions, p) := handle rest p
    (outcome.toOption.toList ++ reactions, p)

/-- Closes the interval and has every signal reacted to. -/
def tick (m : Monitor α) (p : Placement α) : List Reaction × Monitor α × Placement α :=
  let (signals, m) := m.sample
  let (reactions, p) := handle signals p
  (reactions, m, p)

end Monitor

end StreamPlacement
