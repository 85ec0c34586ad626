import StreamPlacement.Proofs.Placement.Remainder
import StreamPlacement.Proofs.Simulation.Agenda
import StreamPlacement.Proofs.Simulation.Conversation
import StreamPlacement.Proofs.Simulation.Counting
import StreamPlacement.Proofs.Simulation.Provisioning

/-!
Estimated traffic.

Before every sample the demand on each link is added to its count. What the monitor then reads is
the demand only if nothing else was added: recorded traffic is counted in every run, and the demand
between two nodes is added as often as links were declared between them.
-/

namespace StreamPlacement

variable {α : Type} [Quantity α]

/-! ### Recorded traffic -/

namespace Topology

variable {t : Topology α} {e : Edge}

/-- The recorded bytes on a link in the current interval, after one more event. -/
def recorded (t : Topology α) (e : Edge) (bytes : Nat) : Event → Nat
  | .traffic seen more => if t.metered seen = e then bytes + more else bytes
  | .tick => 0
  | .arrival .. | .activation => bytes

/-- The recorded bytes on a link since the last tick. -/
def trafficOn (t : Topology α) (e : Edge) (handled : List Appointment) : Nat :=
  handled.foldl (fun bytes appointment => t.recorded e bytes appointment.event) 0

omit [Quantity α] in
theorem trafficOn_concat (handled : List Appointment) (next : Appointment) :
    t.trafficOn e (handled ++ [next]) = t.recorded e (t.trafficOn e handled) next.event := by
  simp [trafficOn]

end Topology

namespace Simulation

variable {s : Simulation α} {t : Topology α} {count : Edge → Nat}

theorem monitor_endInterval (s : Simulation α) :
    s.endInterval.monitor = s.measured.monitor.sample.2 := by
  rw [endInterval_eq]
  split <;> rw [reacted_eq]

theorem monitor_measured_agenda (s : Simulation α) (agenda : Agenda) :
    ({ s with agenda } : Simulation α).measured.monitor = s.measured.monitor := by
  unfold measured
  split <;> rfl

/-- An event adds what was recorded, and a tick starts again from zero. -/
theorem shows_dispatch (h : s.monitor.Shows t s.placement.book fun e => min wordMax (count e))
    (hbook : s.placement.book.Issued t) (hlinks : s.placement.topology.links = t.links)
    (htraffic : s.settings.traffic = .estimated) (event : Event) :
    (s.dispatch event).1.monitor.Shows t s.placement.book fun e =>
      min wordMax (t.recorded e (count e) event) := by
  cases event with
  | arrival user content server =>
      rw [dispatch, arrive_eq]
      exact h
  | traffic seen bytes =>
      refine (h.recordLink hbook seen bytes).congr fun e => ?_
      simp only [Topology.recorded]
      split
      · omega
      · rfl
  | tick =>
      show s.endInterval.monitor.Shows t s.placement.book _
      rw [monitor_endInterval]
      exact (shows_measured h hbook hlinks htraffic).sample.congr fun e => (Nat.min_zero _).symm
  | activation => exact h

end Simulation

/-! ### Sessions -/

/-- The monitor as a tick would sample it now. -/
def Session.sampled (x : Session α) : Monitor α := x.loop.plane.measured.monitor

/-- The monitor has one count for the ends of a link, however many links have these ends. What a
tick would sample there is what was recorded since the last one, and the bytes of the demand once
for each of these links, up to the largest word. -/
structure Session.Gauged (d : Deployment α) (x : Session α) : Prop where
  tick_eq : ∀ agenda, ({ x.loop.plane with agenda }.dispatch .tick).1.monitor = x.sampled.sample.2
  watched : ∀ e, d.topology.Declares e ↔
    ∃ address link, (address, link) ∈ x.sampled.links.entries ∧ link.edge = e
  address_eq : ∀ {address address' link link'}, (address, link) ∈ x.sampled.links.entries →
    (address', link') ∈ x.sampled.links.entries → link.edge = link'.edge → address = address'
  capacity_eq : ∀ {address link}, (address, link) ∈ x.sampled.links.entries →
    link.capacityMbps = ((d.topology.link? link.edge).map Link.capacityMbps).getD 0
  bytes_eq : ∀ {address link}, (address, link) ∈ x.sampled.links.entries →
    link.bytes = min wordMax (d.topology.trafficOn link.edge x.loop.handled +
      d.topology.multiplicity link.edge * x.loop.plane.estimate link.edge)

namespace Launch

variable {l : Launch α} {respond : Solver.Request → Solver.Reply → Prop} {x : Session α}

/-- The traffic is estimated, and the monitor observes the links of the topology. -/
structure Estimates (l : Launch α) : Prop where
  traffic_eq : l.settings.traffic = .estimated
  monitor_eq : l.monitor = ({ settings := l.monitor.settings } : Monitor α).registerAll
    l.deployment.topology l.deployment.book

theorem CanReach.coherent (h : l.CanReach respond x) :
    x.loop.plane.placement.Coherent l.deployment := by
  obtain ⟨ops, hops⟩ := h.runsTo
  rw [hops]
  exact l.deployment.coherent_after ops

theorem CanReach.issued (h : l.CanReach respond x) :
    x.loop.plane.placement.book.Issued l.deployment.topology := by
  rw [h.coherent.book_eq]
  exact l.deployment.issued

/-- The monitor has counted what was recorded since the last tick. -/
theorem CanReach.shows (h : l.CanReach respond x) (hl : l.Estimates) :
    x.loop.plane.monitor.Shows l.deployment.topology l.deployment.book fun e =>
      min wordMax (l.deployment.topology.trafficOn e x.loop.handled) := by
  induction h with
  | refl =>
      show l.start.monitor.Shows _ _ _
      rw [l.monitor_start, hl.monitor_eq]
      exact (Monitor.shows_registerAll l.deployment.issued.links.1 rfl).congr fun e =>
        (Nat.min_zero _).symm
  | @tail x y hreach hstep ih =>
      cases hstep with
      | answer | leave => exact ih
      | take =>
          show (x.loop.plane.apply _).monitor.Shows _ _ _
          rw [Simulation.monitor_apply]
          exact ih
      | turn ready =>
          rcases x.loop.plane_turn with ⟨heq, hhandled⟩ | ⟨next, agenda, processed, heq, hhandled⟩
          · rw [heq, hhandled]
            exact ih
          · have hcoherent := CanReach.coherent hreach
            have htraffic : x.loop.plane.settings.traffic = .estimated := by
              rw [CanReach.settings_eq hreach, hl.traffic_eq]
            rw [← hcoherent.book_eq] at ih ⊢
            rw [heq, hhandled]
            have hshows := Simulation.shows_dispatch (s := { x.loop.plane with agenda }) ih
              (CanReach.issued hreach) hcoherent.network.links_eq htraffic next.event
            exact hshows.congr fun e => by rw [Topology.trafficOn_concat]

/-- What was recorded since the last tick is what the monitor holds already. -/
theorem CanReach.trafficOn_eq_zero (h : l.CanReach respond x) (hl : l.Estimates)
    {address : Address} {monitored : MonitoredLink α}
    (hentry : (address, monitored) ∈ x.loop.plane.monitor.links.entries)
    (hbytes : monitored.bytes = 0) :
    l.deployment.topology.trafficOn monitored.edge x.loop.handled = 0 := by
  obtain ⟨-, hreading⟩ := ((h.shows hl).mem_entries_iff l.deployment.issued).mp hentry
  have hcount := (congrArg MonitoredLink.bytes hreading).symm.trans hbytes
  have hmax : 0 < wordMax := by decide
  simp only [Monitor.reading] at hcount
  omega

theorem CanReach.settings_sampled (h : l.CanReach respond x) :
    x.sampled.settings = l.monitor.settings := by
  obtain ⟨monitor, hsettings, hmeasured⟩ := x.loop.plane.measured_eq
  rw [Session.sampled, hmeasured]
  exact hsettings.trans h.monitor_eq

/-- What the next tick samples: what was recorded, and the demand once for every link. -/
theorem CanReach.shows_measured (h : l.CanReach respond x) (hl : l.Estimates) :
    x.sampled.Shows l.deployment.topology l.deployment.book fun e =>
      min wordMax (l.deployment.topology.trafficOn e x.loop.handled +
        l.deployment.topology.multiplicity e * x.loop.plane.estimate e) := by
  have hshows := h.shows hl
  rw [← h.coherent.book_eq] at hshows ⊢
  refine Simulation.shows_measured hshows h.issued h.coherent.network.links_eq ?_
  rw [h.settings_eq, hl.traffic_eq]

theorem CanReach.gauged (h : l.CanReach respond x) (hl : l.Estimates) :
    x.Gauged l.deployment := by
  have hshows := h.shows_measured hl
  have hentry : ∀ {address link}, (address, link) ∈ x.sampled.links.entries → link = _ :=
    fun hmem => ((hshows.mem_entries_iff l.deployment.issued).mp hmem).2
  constructor
  case tick_eq =>
    intro agenda
    rw [Session.sampled, ← x.loop.plane.monitor_measured_agenda agenda]
    exact Simulation.monitor_endInterval _
  case watched => exact hshows.declares_iff l.deployment.issued
  case address_eq => exact hshows.address_eq l.deployment.issued
  case capacity_eq =>
    intro address link hmem
    rw [hentry hmem]
    rfl
  case bytes_eq =>
    intro address link hmem
    rw [hentry hmem]
    rfl

end Launch

/-! ### Counts that are the demand -/

/-- A capped sum of bytes and equal parts is one of the parts if nothing else is added, or else at
the cap. -/
theorem min_add_mul_eq_iff {cap bytes parts part : Nat} (hparts : 1 ≤ parts) (hcap : part ≤ cap) :
    min cap (bytes + parts * part) = part ↔ part = cap ∨ bytes = 0 ∧ (parts = 1 ∨ part = 0) := by
  obtain ⟨more, rfl⟩ := Nat.exists_eq_add_of_le hparts
  rw [Nat.add_mul, Nat.one_mul]
  have hmore : more * part = 0 ↔ more = 0 ∨ part = 0 := Nat.mul_eq_zero
  omega

theorem Simulation.estimate_le (hcap : ∀ x : α, Quantity.truncate x ≤ wordMax) (s : Simulation α)
    (e : Edge) : s.estimate e ≤ wordMax := by
  unfold estimate
  split
  · exact hcap _
  · exact Nat.zero_le _

/-- A count is that of the demand if nothing was recorded and a single link has these ends, or if
there is no demand to count twice; or else it has reached the largest word. -/
theorem Session.Gauged.bytes_eq_iff {d : Deployment α} {x : Session α} (h : x.Gauged d)
    (hcap : ∀ x : α, Quantity.truncate x ≤ wordMax) {address : Address} {link : MonitoredLink α}
    (hentry : (address, link) ∈ x.sampled.links.entries) :
    link.bytes = x.loop.plane.estimate link.edge ↔
      x.loop.plane.estimate link.edge = wordMax ∨
        d.topology.trafficOn link.edge x.loop.handled = 0 ∧
          (d.topology.multiplicity link.edge = 1 ∨ x.loop.plane.estimate link.edge = 0) := by
  obtain ⟨other, hmem, hedge⟩ := (h.watched link.edge).mpr ⟨address, link, hentry, rfl⟩
  have hparts : 1 ≤ d.topology.multiplicity link.edge :=
    List.countP_pos_iff.mpr ⟨other, hmem, by simpa using hedge⟩
  rw [h.bytes_eq hentry]
  exact min_add_mul_eq_iff hparts (x.loop.plane.estimate_le hcap _)

/-! ### Exact arithmetic -/

theorem Quantity.truncate_le {x bound : Rat} (hbound : 0 ≤ bound) (h : x ≤ bound) :
    (Quantity.truncate x : Rat) ≤ bound := by
  have hfloor : (Quantity.truncate x : Rat) ≤ (x.floor.toNat : Rat) :=
    Nat.cast_le.mpr (Nat.min_le_right _ _)
  rcases le_total 0 x with hx | hx
  · have hnat : ((x.floor.toNat : Int) : Rat) = (x.floor : Rat) := by
      rw [Int.toNat_of_nonneg (Rat.le_floor_iff.mpr hx)]
    calc (Quantity.truncate x : Rat) ≤ (x.floor : Rat) := by rw [← hnat]; exact_mod_cast hfloor
      _ ≤ x := Rat.floor_le x
      _ ≤ bound := h
  · have hzero : x.floor.toNat = 0 := Int.toNat_of_nonpos (by
      have := (Rat.floor_le x).trans hx
      exact_mod_cast this)
    rw [hzero] at hfloor
    exact hfloor.trans (by simpa using hbound)

namespace Simulation

variable {s : Simulation Rat}

/-- A demand that is within a rate makes no more bytes in an interval than the rate does. -/
theorem throughput_le (s : Simulation Rat) {demand rate : Rat}
    (hinterval : 0 < s.monitor.settings.interval) (hrate : 0 ≤ rate) (h : demand ≤ rate) :
    s.monitor.throughput (s.intervalBytes demand) ≤ rate / Quantity.ofNat 1000000 := by
  have hbytes : (s.intervalBytes demand : Rat) ≤ rate * s.monitor.settings.interval / 8 := by
    refine Quantity.truncate_le (div_nonneg (mul_nonneg hrate hinterval.le) (by norm_num)) ?_
    show demand * s.monitor.settings.interval / 8 ≤ _
    gcongr
  show (s.intervalBytes demand : Rat) * 8 / (1000000 * s.monitor.settings.interval) ≤
    rate / 1000000
  rw [div_le_div_iff₀ (by positivity) (by positivity)]
  linarith

theorem linkDemand_nonneg (s : Simulation Rat) (hunit : 0 < s.placement.topology.unit) (e : Edge) :
    0 ≤ s.placement.linkDemand e := by
  rw [Placement.linkDemand_eq]
  positivity

@[simp] theorem intervalBytes_zero (s : Simulation Rat) : s.intervalBytes 0 = 0 := by
  have hfloor : (0 : Rat).floor.toNat = 0 := rfl
  simp [intervalBytes, Quantity.truncate, hfloor]

theorem estimate_eq (s : Simulation Rat) (hunit : 0 < s.placement.topology.unit) (e : Edge) :
    s.estimate e = s.intervalBytes (s.placement.linkDemand e) := by
  unfold estimate
  split
  · rfl
  · next hnot =>
      have hzero : s.placement.linkDemand e = 0 :=
        le_antisymm (not_lt.mp hnot) (s.linkDemand_nonneg hunit e)
      rw [hzero, intervalBytes_zero]

/-- What is counted for a demand within a rate stays within it. -/
theorem throughput_estimate_le (s : Simulation Rat) {e : Edge} {rate : Rat}
    (hinterval : 0 < s.monitor.settings.interval) (hrate : 0 ≤ rate)
    (h : s.placement.linkDemand e ≤ rate) :
    s.monitor.throughput (s.estimate e) ≤ rate / Quantity.ofNat 1000000 := by
  unfold estimate
  split
  · exact s.throughput_le hinterval hrate h
  · rw [← s.intervalBytes_zero]
    exact s.throughput_le hinterval hrate hrate

/-- A link whose count is that of a demand within its capacity is not reported. -/
theorem address_ne_of_fits (s : Simulation Rat) {m : Monitor Rat}
    (hsettings : m.settings = s.monitor.settings) (hinterval : 0 < s.monitor.settings.interval)
    (hthreshold : s.monitor.settings.threshold = none) {address : Address}
    {link : MonitoredLink Rat} (hentry : (address, link) ∈ m.links.entries) {demand : Rat}
    (hbytes : link.bytes = s.intervalBytes demand) (hdemand : 0 ≤ demand)
    (hfits : demand ≤ 1000000 * link.capacityMbps) :
    ∀ signal ∈ m.sample.1, signal.address ≠ address := by
  have hle := s.throughput_le hinterval (hdemand.trans hfits) hfits
  have hcapacity : 1000000 * link.capacityMbps / Quantity.ofNat 1000000 = link.capacityMbps :=
    mul_div_cancel_left₀ _ (by norm_num)
  refine Monitor.address_ne_of_within hentry (not_lt.mpr ?_)
  rw [Monitor.limit, Monitor.throughput, hsettings, hthreshold, hbytes]
  rw [hcapacity, Monitor.throughput] at hle
  exact hle

end Simulation

/-! ### Control planes that are built -/

theorem Settings.estimates_of_build {settings : Settings} {files : FileReader (StateM MemoryFiles)}
    {memory : MemoryFiles} {sim : Simulation Float}
    (hbuilt : (memory.outcome (settings.build files)).1 = .ok sim)
    (htraffic : settings.monitor.traffic = .estimated) (events : List (TimedEvent Float)) :
    ∃ l : Launch Float, l.Estimates ∧ l.start = sim.scheduleAll events ∧
      l.monitor.settings = settings.monitor ∧
      (settings.resolution = .greedy → l.worker = none ∧ l.settings.blocking = false) := by
  obtain ⟨l, rfl, hsettings, hmonitor, -, hstrategy⟩ := launch_of_build hbuilt
  have hwatch : l.monitor.settings = settings.monitor := by
    rw [hmonitor, Monitor.settings_registerAll]
  refine ⟨{ l with events := l.events ++ events }, ⟨?_, ?_⟩, List.foldl_append, hwatch, ?_⟩
  · show l.settings.traffic = _
    rw [hsettings]
    exact htraffic
  · show l.monitor = _
    rw [hwatch]
    exact hmonitor
  · intro hgreedy
    refine ⟨l.worker_of_greedy (hstrategy.mpr hgreedy), ?_⟩
    show l.settings.blocking = _
    rw [hsettings, runSettings, hgreedy]

/-- A control plane that is built with estimated traffic begins a session, whatever events are added
to its workload; with the greedy strategy its run is one. At any time in such a session the monitor
has one count for the ends of a link, and a tick samples there what was recorded since the last one,
and the bytes of the demand once for every link with these ends. This is the demand alone if and
only if nothing was recorded and there is a single such link, or there is no demand, or the largest
word is reached. In exact arithmetic, and with no threshold, a link whose count is that of a demand
within its capacity is not reported. -/
theorem Settings.estimate_sampled {settings : Settings} {files : FileReader (StateM MemoryFiles)}
    {memory : MemoryFiles} {sim : Simulation Float}
    (hbuilt : (memory.outcome (settings.build files)).1 = .ok sim)
    (htraffic : settings.monitor.traffic = .estimated) (events : List (TimedEvent Float)) :
    (∃ l : Launch Float, l.start = sim.scheduleAll events ∧ l.Estimates ∧
      l.monitor.settings = settings.monitor ∧
      (settings.resolution = .greedy → ∀ s, (sim.scheduleAll events).Reaches s →
        ∀ respond, ∃ x, l.CanReach respond x ∧ x.loop.plane = s) ∧
      ∀ {respond x}, l.CanReach respond x → x.Gauged l.deployment ∧
        ∀ {address link}, (address, link) ∈ x.sampled.links.entries →
          let bytes := x.loop.plane.estimate link.edge
          (link.bytes = bytes ↔ bytes = wordMax ∨
            l.deployment.topology.trafficOn link.edge x.loop.handled = 0 ∧
              (l.deployment.topology.multiplicity link.edge = 1 ∨ bytes = 0))) ∧
    ∀ (l : Launch Rat) {respond : Solver.Request → Solver.Reply → Prop} {x : Session Rat},
      l.Estimates → 0 < l.deployment.topology.unit → 0 < l.monitor.settings.interval →
      l.CanReach respond x → x.Gauged l.deployment ∧
        ∀ {address link}, (address, link) ∈ x.sampled.links.entries →
          let demand := x.loop.plane.placement.linkDemand link.edge
          let bytes := x.loop.plane.intervalBytes demand
          (link.bytes = bytes ↔ bytes = wordMax ∨
            l.deployment.topology.trafficOn link.edge x.loop.handled = 0 ∧
              (l.deployment.topology.multiplicity link.edge = 1 ∨ bytes = 0)) ∧
          (l.monitor.settings.threshold = none → link.bytes = bytes →
            demand ≤ 1000000 * link.capacityMbps →
            ∀ signal ∈ x.sampled.sample.1, signal.address ≠ address) := by
  constructor
  · obtain ⟨l, hl, hstart, hsettings, hgreedy⟩ := estimates_of_build hbuilt htraffic events
    refine ⟨l, hstart, hl, hsettings, fun hresolution s hreaches respond => ?_,
      fun {respond x} hreach => ?_⟩
    · obtain ⟨hworker, hblocking⟩ := hgreedy hresolution
      obtain ⟨x, hreach, hplane, -⟩ :=
        l.canReach_of_reaches hworker hblocking (hstart ▸ hreaches)
      exact ⟨x, hreach, hplane⟩
    · have hgauged := hreach.gauged hl
      exact ⟨hgauged, fun hentry => hgauged.bytes_eq_iff (fun _ => Binary64.toWord_le _ _) hentry⟩
  · intro l respond x hl hunit hinterval hreach
    have hgauged := hreach.gauged hl
    have hnow : 0 < x.loop.plane.placement.topology.unit :=
      hreach.coherent.network.unit_eq ▸ hunit
    refine ⟨hgauged, fun {address link} hentry => ⟨?_, fun hthreshold hbytes hfits => ?_⟩⟩
    · have hcount := hgauged.bytes_eq_iff (fun _ => Nat.min_le_left _ _) hentry
      rw [Simulation.estimate_eq _ hnow] at hcount
      exact hcount
    · refine x.loop.plane.address_ne_of_fits ?_ ?_ ?_ hentry hbytes
        (x.loop.plane.linkDemand_nonneg hnow _) hfits
      · rw [hreach.settings_sampled, hreach.monitor_eq]
      · rw [hreach.monitor_eq]
        exact hinterval
      · rw [hreach.monitor_eq]
        exact hthreshold

/-! ### Two small networks -/

/-- The line with its links observed, in intervals of eight seconds. -/
def Launch.observed : Launch Rat :=
  { line with
    monitor := ({ settings := { interval := 8 } } : Monitor Rat).registerAll
      line.deployment.topology line.deployment.book }

namespace Simulation

/-- Some count is not that of the demand, which is within the capacity of its link, and yet the link
is reported. -/
def Misread (s : Simulation Float) : Prop :=
  ∃ entry ∈ s.measured.monitor.links.entries,
    entry.2.bytes ≠ s.intervalBytes (s.placement.linkDemand entry.2.edge) ∧
      s.placement.linkDemand entry.2.edge ≤ 1000000 * entry.2.capacityMbps ∧
      ∃ signal ∈ s.measured.monitor.sample.1, signal.address = entry.1

instance (s : Simulation Float) : Decidable s.Misread := inferInstanceAs (Decidable (∃ _, _ ∧ _))

/-- Whether a tick comes after some turns, and a count is misread at it. -/
def misreadsAfter (s : Simulation Float) (turns : Nat) : Bool :=
  let s := turn^[turns] s
  s.agenda.queue.head?.any (·.event = .tick) ∧ s.Misread

/-- The run comes to a tick at which a count is misread. -/
def Misreads (s : Simulation Float) : Prop :=
  ∃ t next agenda, s.Reaches t ∧ t.agenda.pop? = some (next, agenda) ∧ next.event = .tick ∧
    t.Misread

theorem misreads_of_misreadsAfter {turns : Nat} {s : Simulation Float}
    (h : s.misreadsAfter turns = true) : s.Misreads := by
  obtain ⟨htick, hmisread⟩ := of_decide_eq_true h
  cases hqueue : (turn^[turns] s).agenda.queue with
  | nil =>
      rw [hqueue] at htick
      cases htick
  | cons next rest =>
      rw [hqueue] at htick
      exact ⟨_, next, _, reaches_turns turns s,
        Agenda.pop?_eq_some_iff.mpr ⟨rest, hqueue, rfl⟩, of_decide_eq_true htick, hmisread⟩

end Simulation

namespace Settings

/-- A server and an access point with two viewers, and some links. -/
def pair.files (links : String) : MemoryFiles :=
  .ofList [("nodes", "0 server\n1 ap".toUTF8.toList), ("links", links.toUTF8.toList)]

/-- The greedy strategy, traffic that is estimated, and no limit but the capacities. -/
def pair.configuration : Configuration where
  topology := { nodes := "nodes", links := "links" }
  origin := ⟨0⟩
  resolution := { strategy := "greedy" }
  clientsPerAccessPoint := 2
  monitor := { interval := 2 }
  stopTime := 3

/-- Both viewers come at once. -/
def pair.rush : List (TimedEvent Float) :=
  [⟨0, .arrival ⟨0⟩ ⟨7⟩ none⟩, ⟨0, .arrival ⟨1⟩ ⟨7⟩ none⟩]

/-- A control plane over the links, with estimated traffic and no threshold. -/
def pair.Built (links : String) (sim : Simulation Float) : Prop :=
  ∃ settings, ofConfiguration "" configuration = .ok settings ∧
    settings.monitor.traffic = .estimated ∧ settings.monitor.threshold.isNone ∧
    ((files links).outcome (settings.build MemoryFiles.current)).1 = .ok sim

theorem pair.exists_built (links : String) (check : Simulation Float → Bool)
    (h : (launched (files links) configuration).toOption.any check = true) :
    ∃ sim, Built links sim ∧ check sim = true := by
  have hplain : (ofConfiguration "" configuration).toOption.all (fun settings =>
      settings.monitor.traffic = .estimated ∧ settings.monitor.threshold.isNone) = true := by
    decide +kernel
  cases hsim : launched (files links) configuration with
  | error fault =>
      rw [hsim] at h
      cases h
  | ok sim =>
      obtain ⟨settings, haccepted, hbuilt⟩ := built_of_launched hsim
      rw [haccepted] at hplain
      rw [hsim] at h
      obtain ⟨htraffic, hthreshold⟩ := of_decide_eq_true hplain
      exact ⟨sim, ⟨settings, haccepted, htraffic, hthreshold, hbuilt⟩, h⟩

/-- On the pair every count is what was recorded and the demand. On the line the first viewer fills
the first link, of which there is one, and nothing was recorded: the count is that of the demand,
and the link is not reported. -/
theorem estimate_sampled_on_line :
    (∃ sim, pair.Built "0 1 1e7 0 0 1" sim ∧
      ∃ l : Launch Float, l.start = sim.scheduleAll pair.rush ∧
        ∀ {respond x}, l.CanReach respond x → x.Gauged l.deployment) ∧
    ∃ x address link, Launch.observed.CanReach (fun _ _ => False) x ∧
      (address, link) ∈ x.sampled.links.entries ∧ link.edge = (⟨0⟩, ⟨1⟩) ∧ link.bytes = 1 ∧
      ∀ signal ∈ x.sampled.sample.1, signal.address ≠ address := by
  obtain ⟨sim, hbuilt, -⟩ := pair.exists_built "0 1 1e7 0 0 1" (fun _ => true) (by decide +kernel)
  obtain ⟨settings, -, htraffic, -, hsim⟩ := id hbuilt
  obtain ⟨⟨l, hstart, -, -, -, hgauged⟩, hexact⟩ := estimate_sampled hsim htraffic pair.rush
  refine ⟨⟨sim, hbuilt, l, hstart, fun hreach => (hgauged hreach).1⟩, ?_⟩
  let x : Session Rat :=
    { Launch.observed.opening with loop := Launch.observed.opening.loop.turn }
  have hreach : Launch.observed.CanReach (fun _ _ => False) x := .single (.turn rfl)
  have hentry : ∃ entry ∈ x.sampled.links.entries, entry.2.edge = (⟨0⟩, ⟨1⟩) ∧
      x.loop.plane.placement.linkDemand (⟨0⟩, ⟨1⟩) ≤ 1000000 * entry.2.capacityMbps := by
    decide +kernel
  obtain ⟨⟨address, link⟩, hentry, hedge, hfits⟩ := hentry
  dsimp only at hedge hfits
  obtain ⟨hcount, hquiet⟩ :=
    (hexact Launch.observed ⟨rfl, rfl⟩ (by decide +kernel) (by decide +kernel) hreach).2 hentry
  rw [hedge] at hcount hquiet
  have hbytes := hcount.mpr (.inr ⟨by decide +kernel, .inl (by decide +kernel)⟩)
  refine ⟨x, address, link, hreach, hentry, hedge, hbytes.trans (by decide +kernel), ?_⟩
  exact hquiet rfl hbytes hfits

/-- Two links with the same ends make for twice the demand, and what was recorded is counted beside
it. -/
theorem estimate_misread :
    (∃ sim, pair.Built "0 1 1e7 0 0 1\n0 1 1e7 0 0 1" sim ∧
      (sim.scheduleAll pair.rush).Misreads) ∧
    ∃ sim, pair.Built "0 1 1e7 0 0 1" sim ∧
      (sim.scheduleAll (⟨0, .traffic (⟨0⟩, ⟨1⟩) 1000000⟩ :: pair.rush)).Misreads := by
  obtain ⟨sim, hbuilt, htwice⟩ := pair.exists_built "0 1 1e7 0 0 1\n0 1 1e7 0 0 1"
    (fun sim => (sim.scheduleAll pair.rush).misreadsAfter 2) (by decide +kernel)
  obtain ⟨sim', hbuilt', hbeside⟩ := pair.exists_built "0 1 1e7 0 0 1"
    (fun sim => (sim.scheduleAll (⟨0, .traffic (⟨0⟩, ⟨1⟩) 1000000⟩ :: pair.rush)).misreadsAfter 3)
    (by decide +kernel)
  exact ⟨⟨sim, hbuilt, Simulation.misreads_of_misreadsAfter htwice⟩,
    sim', hbuilt', Simulation.misreads_of_misreadsAfter hbeside⟩

end Settings

end StreamPlacement
