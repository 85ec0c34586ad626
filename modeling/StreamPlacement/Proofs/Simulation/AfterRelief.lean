import StreamPlacement.Proofs.Simulation.Measurement

/-!
What the monitor makes of a link that was relieved.

Groups that are left on the link and start there fit it, so their demand stays within its rate. The
monitor is fed with the demand at the end of an interval, once for each time the link was declared,
and it counts recorded traffic beside it. So a link that was declared once, and that nothing was
recorded for, is measured at no more than its capacity, and it is not reported again before its
demand has grown.
-/

namespace StreamPlacement

/-! ### What is measured -/

namespace Launch

variable {l : Launch Rat} {respond : Solver.Request → Solver.Reply → Prop} {x : Session Rat}

/-- A link that was declared once, and that nothing was recorded for, is measured by its demand, and
not reported while its demand fits. -/
theorem CanReach.not_reported (h : l.CanReach respond x) (hl : l.Estimates)
    (hinterval : 0 < l.monitor.settings.interval) {e : Edge} {link : Link Rat}
    (hlink : l.deployment.topology.link? e = some link) (hrate : 0 ≤ link.rate)
    (hthreshold : ∀ threshold ∈ l.monitor.settings.threshold, link.capacityMbps ≤ threshold)
    (hdemand : x.loop.plane.placement.linkDemand e ≤ link.rate) {address : Address}
    {monitored : MonitoredLink Rat} (hentry : (address, monitored) ∈ x.sampled.links.entries)
    (hends : monitored.edge = e ∨ monitored.edge = e.swap)
    (honce : l.deployment.topology.multiplicity monitored.edge = 1)
    (hnothing : l.deployment.topology.trafficOn monitored.edge x.loop.handled = 0) :
    monitored.bytes = x.loop.plane.estimate monitored.edge ∧
      x.sampled.throughput monitored.bytes ≤ link.capacityMbps ∧
      ∀ signal ∈ x.sampled.sample.1, signal.edge ≠ monitored.edge := by
  have hgauged := h.gauged hl
  -- The link is the same from either end, and so is its demand.
  obtain ⟨hsame, hfits⟩ : l.deployment.topology.link? monitored.edge = some link ∧
      x.loop.plane.placement.linkDemand monitored.edge ≤ link.rate := by
    rcases hends with hedge | hedge <;> rw [hedge]
    · exact ⟨hlink, hdemand⟩
    · exact ⟨(Topology.link?_swap _ e).trans hlink, (Placement.linkDemand_swap _ e).trans_le hdemand⟩
  have hbytes : monitored.bytes = x.loop.plane.estimate monitored.edge :=
    (hgauged.bytes_eq_iff (fun _ => Nat.min_le_left _ _) hentry).mpr (.inr ⟨hnothing, .inl honce⟩)
  have hmeasured : x.sampled.throughput monitored.bytes ≤ link.capacityMbps := by
    have hle := x.loop.plane.throughput_estimate_le (h.monitor_eq ▸ hinterval) hrate hfits
    rw [Monitor.throughput, h.monitor_eq, ← hbytes] at hle
    rw [Monitor.throughput, h.settings_sampled]
    exact hle
  have hlimit : link.capacityMbps ≤ x.sampled.limit monitored := by
    have hcapacity : monitored.capacityMbps = link.capacityMbps := by
      rw [hgauged.capacity_eq hentry, hsame]
      rfl
    rw [Monitor.limit, h.settings_sampled, hcapacity]
    cases hset : l.monitor.settings.threshold with
    | none => exact le_refl _
    | some threshold => exact hthreshold threshold hset
  refine ⟨hbytes, hmeasured, fun signal hsignal hedge => ?_⟩
  obtain ⟨-, other, hother, hsignalled, -⟩ := Monitor.mem_sample_iff.mp hsignal
  have haddress : signal.address = address :=
    hgauged.address_eq (OrderedMap.mem_entries_iff.mpr hother) hentry (hsignalled.symm.trans hedge)
  exact Monitor.address_ne_of_within hentry (not_lt.mpr (hmeasured.trans hlimit)) signal hsignal
    haddress

end Launch

namespace Deployment

/-- When a link is relieved, the first hop of every group that is left on it has room for all who
are left there with it. Whoever started on the link, and is left on it, still does so. If all who are
left start on it in one direction, their demand fits the link. Then no tick reports the link while
the demand on it is no higher: what the monitor has counted is that demand, if the link was declared
once and nothing was recorded for it, and this is within its capacity. -/
theorem relief_fits (d : Deployment Rat) (ops : List Operation) {e : Edge} {link : Link Rat}
    (hlink : d.topology.link? e = some link) (hrate : 0 ≤ link.rate) :
    ∃ next relief, (d.after ops).relieve e = (next, .ok relief) ∧
      (∀ group ∈ next.registry.groups, group.route.traversesLink e = true →
        ∃ first near, group.route.currentEdge? = some first ∧
          d.topology.link? first = some near ∧
          d.topology.unit * next.registry.viewersFrom e first ≤ near.rate) ∧
      ((d.after ops).registry.AllStartOn e → next.registry.AllStartOn e) ∧
      (next.registry.AllStartOn e → next.linkDemand e ≤ link.rate ∧
        ∀ (l : Launch Rat) {respond : Solver.Request → Solver.Reply → Prop} {x : Session Rat},
          l.deployment = d → l.Estimates → 0 < l.monitor.settings.interval →
          (∀ threshold ∈ l.monitor.settings.threshold, link.capacityMbps ≤ threshold) →
          l.CanReach respond x →
          x.loop.plane.placement.linkDemand e ≤ next.linkDemand e →
          x.Gauged d ∧ ∀ {address monitored}, (address, monitored) ∈ x.sampled.links.entries →
            monitored.edge = e ∨ monitored.edge = e.swap →
            d.topology.multiplicity monitored.edge = 1 →
            d.topology.trafficOn monitored.edge x.loop.handled = 0 →
            monitored.bytes = x.loop.plane.estimate monitored.edge ∧
              x.sampled.throughput monitored.bytes ≤ link.capacityMbps ∧
              ∀ signal ∈ x.sampled.sample.1, signal.edge ≠ monitored.edge) := by
  have h := d.coherent_after ops
  obtain ⟨next, relocations, heq, hrelieved⟩ := h.relieve_ok e
  refine ⟨next, _, heq, ?_, hrelieved.allStartOn h, fun hstart => ?_⟩
  · intro group hmem huses
    obtain ⟨id, hgroup⟩ := Registry.mem_groups_iff.mp hmem
    obtain ⟨first, hfirst, hcarries⟩ := hrelieved.carries_first h hgroup huses
    unfold Topology.carries at hcarries
    split at hcarries
    · next near hnear =>
        refine ⟨first, near, hfirst, hnear, ?_⟩
        rw [mul_comm]
        exact of_decide_eq_true hcarries
    · cases hcarries
  · have hfits := hrelieved.linkDemand_le h hstart hlink hrate
    refine ⟨hfits, ?_⟩
    rintro l respond x rfl hl hinterval hthreshold hreach hdemand
    exact ⟨hreach.gauged hl, fun hentry hends honce hnothing =>
      hreach.not_reported hl hinterval hlink hrate hthreshold (hdemand.trans hfits) hentry hends
        honce hnothing⟩

/-! ### Two groups that meet -/

/-- Two servers, each with an access point. The link between the servers carries one stream. -/
def crossing.collected : Topology Rat :=
  { Topology.empty 1 with
    nodes := [⟨⟨0⟩, .cacheServer, none⟩, ⟨⟨1⟩, .cacheServer, none⟩, ⟨⟨2⟩, .accessPoint, none⟩,
      ⟨⟨3⟩, .accessPoint, none⟩]
    links := [⟨⟨0⟩, ⟨1⟩, 1, 0, 0, 0⟩, ⟨⟨1⟩, ⟨2⟩, 10, 0, 0, 0⟩, ⟨⟨0⟩, ⟨3⟩, 10, 0, 0, 0⟩] }

/-- Both servers with two viewers at each access point, and the origin at the first of them. -/
def crossing : Deployment Rat where
  collected := crossing.collected
  size := 4
  topology := crossing.collected.builtOver 4
  built := rfl
  book := ((AddressBook.populated (crossing.collected.builtOver 4) 2).toOption).getD {}
  issued := AddressBook.issued_of_populated 2 rfl
  servers := ({ defaultCapacity := 1 } : ServerPool).registerOrigin ⟨0⟩ "origin"
  grouping := .byContent
  strategy := .greedy

/-- One viewer is served across the link, and two are served across it the other way. -/
def crossing.rush : List Operation :=
  [.arrive ⟨2⟩ ⟨0⟩ ⟨7⟩ ⟨0⟩, .arrive ⟨3⟩ ⟨1⟩ ⟨7⟩ ⟨2⟩, .arrive ⟨3⟩ ⟨1⟩ ⟨7⟩ ⟨3⟩]

/-- The same viewers come at once, and the traffic is estimated in intervals of eight seconds. -/
def crossing.launch : Launch Rat where
  deployment := crossing
  monitor :=
    ({ settings := { interval := 8 } } : Monitor Rat).registerAll crossing.topology crossing.book
  worker := none
  worker_of_greedy _ := rfl
  settings := { origin := ⟨0⟩, stopTime := 20, provision := false }
  events := [⟨0, .arrival ⟨0⟩ ⟨7⟩ none⟩, ⟨0, .arrival ⟨2⟩ ⟨7⟩ (some ⟨1⟩)⟩,
    ⟨0, .arrival ⟨3⟩ ⟨7⟩ (some ⟨1⟩)⟩]

/-- The state of the run after some turns. -/
def crossing.moment (turns : Nat) : Simulation Rat := Simulation.turn^[turns] crossing.launch.start

/-- The first tick reports the link, and the two viewers leave it. The one who stays starts on it and
fits it, and the second tick reports it no more. -/
theorem relief_fits_at_crossing :
    let crowded := crossing.after crossing.rush
    crowded.linkDemand (⟨0⟩, ⟨1⟩) = 3 ∧
      (∃ signal ∈ (crossing.moment 3).measured.monitor.sample.1, signal.edge = (⟨0⟩, ⟨1⟩)) ∧
      ∃ next relief, crowded.relieve (⟨0⟩, ⟨1⟩) = (next, .ok relief) ∧
        next.linkDemand (⟨0⟩, ⟨1⟩) ≤ 1 ∧
        ∃ x, crossing.launch.CanReach (fun _ _ => False) x ∧ x.loop.plane = crossing.moment 4 ∧
          ∃ address monitored, (address, monitored) ∈ x.sampled.links.entries ∧
            monitored.edge = (⟨0⟩, ⟨1⟩) ∧ monitored.bytes = 1 ∧
            ∀ signal ∈ x.sampled.sample.1, signal.edge ≠ (⟨0⟩, ⟨1⟩) := by
  refine ⟨by decide +kernel, by decide +kernel, ?_⟩
  have hlink : crossing.topology.link? (⟨0⟩, ⟨1⟩) = some ⟨⟨0⟩, ⟨1⟩, 1, 0, 0, 0⟩ := rfl
  obtain ⟨next, relief, heq, -, -, hfits⟩ :=
    relief_fits crossing crossing.rush hlink (by decide +kernel)
  have hstart : ((crossing.after crossing.rush).relieve (⟨0⟩, ⟨1⟩)).1.registry.AllStartOn
      (⟨0⟩, ⟨1⟩) := by
    unfold Registry.AllStartOn
    decide +kernel
  have hleft : (crossing.moment 4).placement.linkDemand (⟨0⟩, ⟨1⟩) ≤
      ((crossing.after crossing.rush).relieve (⟨0⟩, ⟨1⟩)).1.linkDemand (⟨0⟩, ⟨1⟩) := by
    decide +kernel
  rw [heq] at hstart hleft
  obtain ⟨hdemand, hquiet⟩ := hfits hstart
  refine ⟨next, relief, heq, hdemand, ?_⟩
  obtain ⟨x, hreach, hplane⟩ : ∃ x, crossing.launch.CanReach (fun _ _ => False) x ∧
      x.loop.plane = crossing.moment 4 := by
    obtain ⟨x, hreach, hplane, -⟩ :=
      crossing.launch.canReach_of_reaches rfl rfl (Simulation.reaches_turns 4 _)
    exact ⟨x, hreach, hplane⟩
  have hcounted : ∃ entry ∈ (crossing.moment 4).monitor.links.entries,
      entry.2.edge = (⟨0⟩, ⟨1⟩) ∧ entry.2.bytes = 0 := by decide +kernel
  have hsampled : ∃ entry ∈ (crossing.moment 4).measured.monitor.links.entries,
      entry.2.edge = (⟨0⟩, ⟨1⟩) := by decide +kernel
  rw [← hplane] at hcounted hsampled hleft
  obtain ⟨⟨_, counted⟩, hcounted, hcountedEdge, hzero⟩ := hcounted
  obtain ⟨⟨address, monitored⟩, hentry, hedge⟩ := hsampled
  dsimp only at hcountedEdge hzero hedge
  have hnothing := hreach.trafficOn_eq_zero ⟨rfl, rfl⟩ hcounted hzero
  rw [hcountedEdge, ← hedge] at hnothing
  obtain ⟨hbytes, -, hsignals⟩ := (hquiet crossing.launch rfl ⟨rfl, rfl⟩ (by decide +kernel) nofun
    hreach hleft).2 hentry (.inl hedge) (by rw [hedge]; decide +kernel) hnothing
  rw [hedge] at hbytes hsignals
  refine ⟨x, hreach, hplane, address, monitored, hentry, hedge, hbytes.trans ?_, hsignals⟩
  rw [hplane]
  decide +kernel

/-! ### A link further down -/

/-- A line of two links, of which the second carries one stream only. -/
def taper.collected : Topology Rat :=
  { Topology.empty 1 with
    nodes := [⟨⟨0⟩, .cacheServer, none⟩, ⟨⟨1⟩, .cacheServer, none⟩, ⟨⟨2⟩, .accessPoint, none⟩]
    links := [⟨⟨0⟩, ⟨1⟩, 2, 0, 0, 0⟩, ⟨⟨1⟩, ⟨2⟩, 1, 0, 0, 0⟩] }

def taper : Deployment Rat where
  collected := taper.collected
  size := 3
  topology := taper.collected.builtOver 3
  built := rfl
  book := ((AddressBook.populated (taper.collected.builtOver 3) 2).toOption).getD {}
  issued := AddressBook.issued_of_populated 2 rfl
  servers := ({ defaultCapacity := 1 } : ServerPool).registerOrigin ⟨0⟩ "origin"
  grouping := .byContent
  strategy := .greedy

/-- Two viewers are let in, since their first hop has room for both. -/
def taper.rush : List Operation := [.arrive ⟨2⟩ ⟨0⟩ ⟨7⟩ ⟨0⟩, .arrive ⟨2⟩ ⟨0⟩ ⟨7⟩ ⟨1⟩]

/-- The second link is as crowded after it was relieved as it was before, because the group stays
where its first hop has room. No link is declared twice. -/
theorem relief_spares_taper :
    let crowded := taper.after taper.rush
    taper.topology.links.Pairwise (fun link other => link.joins other.edge = false) ∧
      ∃ link, taper.topology.link? (⟨1⟩, ⟨2⟩) = some link ∧
        link.rate < crowded.linkDemand (⟨1⟩, ⟨2⟩) ∧
        ∃ next relief, crowded.relieve (⟨1⟩, ⟨2⟩) = (next, .ok relief) ∧
          ¬ next.linkDemand (⟨1⟩, ⟨2⟩) ≤ link.rate := by
  refine ⟨by decide +kernel, ⟨⟨1⟩, ⟨2⟩, 1, 0, 0, 0⟩, rfl, by decide +kernel, ?_⟩
  obtain ⟨next, relocations, heq, -⟩ :=
    (taper.coherent_after taper.rush).relieve_ok (⟨1⟩, ⟨2⟩)
  have hleft : ¬ ((taper.after taper.rush).relieve (⟨1⟩, ⟨2⟩)).1.linkDemand (⟨1⟩, ⟨2⟩) ≤ 1 := by
    decide +kernel
  rw [heq] at hleft
  exact ⟨next, _, heq, hleft⟩

end Deployment

end StreamPlacement
