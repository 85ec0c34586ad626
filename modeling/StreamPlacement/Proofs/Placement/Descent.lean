import StreamPlacement.Proofs.Placement.Relief

/-!
Under the greedy strategy groups only ever move down.

A group is placed at a hop of its own route, and the route from there is the rest of the one it had.
So each move takes at least one hop off the route, and what a group has left of the route it was let
in with bounds how often it has been moved, whatever the network goes through.
-/

namespace StreamPlacement

variable {α : Type} [Quantity α] {d : Deployment α}

/-! ### What a run reports -/

/-- How often a group was moved, as far as some relocations tell. -/
def Relocation.movesOf (id : GroupId) (relocations : List Relocation) : Nat :=
  relocations.countP fun r => r.moved && decide (r.group = id)

theorem Relocation.movesOf_append (id : GroupId) (relocations further : List Relocation) :
    movesOf id (relocations ++ further) = movesOf id relocations + movesOf id further :=
  List.countP_append

/-- Whatever is counted is counted under its key. -/
theorem countP_le_sum_countP {β κ : Type} [DecidableEq κ] (keep : β → Bool) (key : β → κ)
    {keys : List κ} {xs : List β} (h : ∀ x ∈ xs, keep x = true → key x ∈ keys) :
    xs.countP keep ≤
      (keys.map fun k => xs.countP fun x => keep x && decide (key x = k)).sum := by
  induction xs with
  | nil => simp
  | cons x rest ih =>
      have hrest := ih fun y hy => h y (List.mem_cons_of_mem _ hy)
      simp only [List.countP_cons, List.sum_map_add]
      by_cases hkeep : keep x = true
      · have hkey : 1 ≤ (keys.map fun k => if key x = k then 1 else 0).sum :=
          List.single_le_sum (by simp) 1
            (List.mem_map.mpr ⟨key x, h x List.mem_cons_self hkeep, if_pos rfl⟩)
        simpa [hkeep] using Nat.add_le_add hrest hkey
      · simpa [hkeep] using hrest

/-! ### Routes from a hop -/

/-- A route from a hop of the route of a group is the rest of it, and shorter unless it starts where
the group is served. -/
theorem Deployment.Serves.route_from {group : Group} (h : d.Serves group) {node : NodeId}
    (hway : node ∈ group.route.hops) {route : Route}
    (hroute : d.topology.route node group.accessPoint = .ok route) :
    route.hops <:+ group.route.hops ∧
      (group.server ≠ node ↔ route.length < group.route.length) := by
  obtain ⟨before, rest, hhops⟩ := List.append_of_mem hway
  obtain rfl := Except.ok.inj (hroute.symm.trans (d.wired.route_suffix h.routed hhops))
  refine ⟨⟨before, hhops.symm⟩, ?_⟩
  obtain ⟨tail, hstart⟩ := h.walk.cons_eq
  show group.server ≠ node ↔ (node :: rest).length < group.route.hops.length
  rw [hhops, List.length_append]
  have hnodup := h.best.nodup
  rw [hhops] at hstart hnodup
  cases before with
  | nil =>
      obtain ⟨rfl, -⟩ := List.cons.inj hstart
      simp
  | cons first more =>
      -- A route meets no node twice, so its start is not further down.
      obtain ⟨rfl, -⟩ := List.cons.inj hstart
      refine iff_of_true (fun heq => ?_) (by simp)
      exact (List.nodup_cons.mp hnodup).1 (by simp [heq])

namespace Placement

variable {p q r : Placement α} {id : GroupId} {e : Edge} {relocations : List Relocation}

/-- The route of a group, if there is such a group. -/
def route? (p : Placement α) (id : GroupId) : Option Route := (p.registry.group? id).map Group.route

/-- The relocations that an operation reports. -/
def reported (p : Placement α) : Operation → List Relocation
  | .react e =>
    match (p.react e).2 with
    | .ok (.relieved relief) => relief.relocations
    | _ => []
  | .relieve e =>
    match (p.relieve e).2 with
    | .ok relief => relief.relocations
    | .error _ => []
  | .reallocate candidates =>
    match (p.reallocate candidates).2 with
    | .ok relocations => relocations
    | .error _ => []
  | .complete answer => (p.complete answer).2.applied
  | .arrive .. | .escalate _ | .activate | .hangUp => []

/-- All relocations that the operations of a run report, in order. -/
def reportedAlong (p : Placement α) : List Operation → List Relocation
  | [] => []
  | op :: rest => p.reported op ++ (p.perform op).reportedAlong rest

/-- The route of a group in the first state of a run that has the group. -/
def admissionRoute? (p : Placement α) (id : GroupId) : List Operation → Option Route
  | [] => p.route? id
  | op :: rest =>
    match p.route? id with
    | some route => some route
    | none => (p.perform op).admissionRoute? id rest

/-! ### Moving down -/

/-- Every group is still there and was moved down its route, if at all, and each group that was
moved is told of once. -/
structure Lowered (p q : Placement α) (relocations : List Relocation) : Prop where
  suffix : ∀ {id route}, p.route? id = some route →
    ∃ now, q.route? id = some now ∧ now.hops <:+ route.hops
  told : ∀ r ∈ relocations, ∃ old new, p.route? r.group = some old ∧
    q.route? r.group = some new ∧ (r.moved = true ↔ new.length < old.length)
  once : (relocations.map Relocation.group).Nodup
  tally_eq : q.tally.relocations = p.tally.relocations + relocations.countP Relocation.moved

omit [Quantity α] in
/-- An operation that leaves all routes alone. -/
theorem lowered_of_same (hroutes : ∀ {id route}, p.route? id = some route →
      q.route? id = some route)
    (htally : q.tally.relocations = p.tally.relocations) : p.Lowered q [] where
  suffix hroute := ⟨_, hroutes hroute, List.suffix_rfl⟩
  told := by simp
  once := List.nodup_nil
  tally_eq := htally

omit [Quantity α] in
/-- A group is moved once at most, and then its route gets shorter. -/
theorem Lowered.movesOf_le (h : p.Lowered q relocations) {old new : Route}
    (hold : p.route? id = some old) (hnew : q.route? id = some new) :
    Relocation.movesOf id relocations + new.length ≤ old.length := by
  obtain ⟨now, hnow, hsuffix⟩ := h.suffix hold
  obtain rfl : new = now := Option.some.inj (hnew.symm.trans hnow)
  have hlength : new.length ≤ old.length := hsuffix.length_le
  have honce : Relocation.movesOf id relocations ≤ 1 := by
    calc Relocation.movesOf id relocations
        ≤ relocations.countP fun r => decide (r.group = id) :=
          List.countP_mono_left fun r _ hr => (Bool.and_eq_true _ _ ▸ hr).2
      _ = (relocations.map Relocation.group).count id := by
          rw [List.count, List.countP_map]
          exact List.countP_congr fun r _ => by simp
      _ ≤ 1 := List.nodup_iff_count_le_one.mp h.once id
  by_cases hmoved : ∃ r ∈ relocations, r.moved = true ∧ r.group = id
  · obtain ⟨r, hr, hrmoved, rfl⟩ := hmoved
    obtain ⟨old', new', hold', hnew', hshorter⟩ := h.told r hr
    obtain rfl : old = old' := Option.some.inj (hold.symm.trans hold')
    obtain rfl : new = new' := Option.some.inj (hnew.symm.trans hnew')
    have := hshorter.mp hrmoved
    omega
  · have hnone : Relocation.movesOf id relocations = 0 :=
      List.countP_eq_zero.mpr fun r hr hcounted => hmoved ⟨r, hr, by simpa using hcounted⟩
    omega

/-! ### Groups that are placed on their routes -/

/-- A group that is placed at a hop of its route keeps the rest of the route, and it is told that it
was moved just if that is less than it had. -/
theorem Relocated.lowered (hrelocated : Relocated d p q placed relocations) (h : Coherent d p)
    (hnodup : (placed.map Prod.fst).Nodup)
    (hway : ∀ id node, (id, node) ∈ placed → ∀ group, p.registry.group? id = some group →
      node ∈ group.route.hops) : p.Lowered q relocations := by
  have hmoves : ∀ id node, (id, node) ∈ placed → ∀ group, p.registry.group? id = some group →
      ∃ route, q.route? id = some route ∧ route.hops <:+ group.route.hops ∧
        (group.server ≠ node ↔ route.length < group.route.length) := by
    intro id node hmem group hgroup
    obtain ⟨group', address, route, hgroup', -, hroute, hserved⟩ :=
      hrelocated.served id node hmem
    obtain rfl : group = group' := Option.some.inj (hgroup.symm.trans hgroup')
    exact ⟨route, by rw [route?, hserved]; rfl,
      (h.served hgroup).route_from (hway id node hmem group hgroup) hroute⟩
  have hplaced : ∀ r ∈ relocations, (r.group, r.target) ∈ placed := fun r hr =>
    hrelocated.reported ▸ List.mem_map_of_mem hr
  constructor
  case suffix =>
    intro id route hroute
    by_cases hmem : id ∈ placed.map Prod.fst
    · obtain ⟨⟨_, node⟩, hplace, rfl⟩ := List.mem_map.mp hmem
      obtain ⟨group, hgroup, rfl⟩ := Option.map_eq_some_iff.mp hroute
      obtain ⟨now, hnow, hsuffix, -⟩ := hmoves _ node hplace group hgroup
      exact ⟨now, hnow, hsuffix⟩
    · exact ⟨route, by rw [route?, hrelocated.others id hmem]; exact hroute, List.suffix_rfl⟩
  case told =>
    intro r hr
    obtain ⟨group, hgroup, -, hmoved⟩ := hrelocated.told r hr
    obtain ⟨now, hnow, -, hshorter⟩ := hmoves _ _ (hplaced r hr) group hgroup
    refine ⟨group.route, now, by rw [route?, hgroup]; rfl, hnow, ?_⟩
    rw [hmoved, decide_eq_true_iff]
    exact hshorter
  case once =>
    have hgroups : relocations.map Relocation.group = placed.map Prod.fst := by
      rw [← hrelocated.reported, List.map_map]
      rfl
    rw [hgroups]
    exact hnodup
  case tally_eq => rw [hrelocated.tally_eq]

/-- Placing groups anew by plan moves them down their routes. -/
theorem Coherent.lowered_reallocate (h : Coherent d p) (candidates : List GroupId) :
    ∃ q relocations, p.reallocate candidates = (q, .ok relocations) ∧
      p.Lowered q relocations ∧ q.strategy = p.strategy ∧ q.pending = p.pending := by
  obtain ⟨q, relocations, heq, -, hrelocated, -⟩ := h.reallocate_ok candidates
  obtain ⟨hsound, hnodup⟩ := sound_plan p.topology p.registry.groups candidates
  refine ⟨q, relocations, heq, ?_, hrelocated.strategy_eq, hrelocated.pending_eq⟩
  refine hrelocated.lowered h (by rw [map_fst_flatMap_places]; exact hnodup) ?_
  intro id node hmem group hgroup
  obtain ⟨decision, hdecision, hplace⟩ := List.mem_flatMap.mp hmem
  obtain ⟨hid, rfl⟩ := Decision.mem_places.mp hplace
  have hsuits := (hsound decision hdecision).suits_of hid hgroup
  obtain ⟨before, rest, hhops, -⟩ := hsuits.splits (h.served hgroup)
  simp [hhops]

theorem route?_clearEdge (p : Placement α) (e : Edge) (id : GroupId) :
    (p.clearEdge e).route? id = p.route? id := by
  rw [route?, group?_clearEdge, Option.map_map, route?]
  exact congrArg (Option.map · _) (funext fun group => Registry.route_forget e group)

theorem Coherent.lowered_relieve (h : Coherent d p) (e : Edge) :
    ∃ q relief, p.relieve e = (q, .ok relief) ∧ p.Lowered q relief.relocations ∧
      q.strategy = p.strategy ∧ q.pending = p.pending := by
  obtain ⟨q, relocations, heq, hlowered, hstrategy, hpending⟩ :=
    (h.clearEdge e).1.lowered_reallocate ((p.clearEdge e).registry.traversing e)
  refine ⟨q, { edge := e, candidates := _, relocations }, by simp only [relieve, heq]; rfl, ?_,
    hstrategy, hpending⟩
  constructor
  case suffix => exact fun hroute => hlowered.suffix ((route?_clearEdge p e _).trans hroute)
  case told =>
    intro r hr
    obtain ⟨old, new, hold, hrest⟩ := hlowered.told r hr
    exact ⟨old, new, (route?_clearEdge p e _) ▸ hold, hrest⟩
  case once => exact hlowered.once
  case tally_eq => exact hlowered.tally_eq

/-! ### Operations -/

/-- The strategy is greedy, and no answer of a solver is awaited. -/
structure Greedy (p : Placement α) : Prop where
  strategy_eq : p.strategy = .greedy
  pending_eq : p.pending = []

/-- An admission leaves the routes of all groups alone that were there before. -/
theorem Coherent.route?_admitViewer (h : Coherent d p) {accessPoint requested : NodeId}
    {content : ContentId} {user : UserId} {admission : Admission}
    (harrive : p.admitViewer accessPoint requested content user = .ok (admission, q))
    {route : Route} (hroute : p.route? id = some route) : q.route? id = some route := by
  obtain ⟨id', registry, directory, _, tally, henroll, -, hcases⟩ := h.admitViewer_cases harrive
  have hentered : (registry.group? id).map Group.route = some route := by
    obtain ⟨group, hgroup, rfl⟩ := Option.map_eq_some_iff.mp hroute
    obtain ⟨_, -, ⟨-, rfl, -⟩ | ⟨-, route, _, -, -, rfl, -⟩⟩ := Registry.enroll_cases henroll
    · rw [Registry.group?_modify, hgroup]
      by_cases hid : id' = id <;> simp [hid, Group.addViewer]
    · have hold : id.index ≠ p.registry.size := by
        intro hsize
        have hnone := p.registry.group?_size
        rw [← hsize] at hnone
        cases hgroup.symm.trans hnone
      rw [Registry.group?_append, if_neg hold, hgroup]
      rfl
  rcases hcases with ⟨-, -, rfl⟩ | ⟨e, -, ⟨-, rfl⟩ | ⟨-, rfl⟩⟩
  · exact hentered
  · rw [route?, Registry.group?_modify, Option.map_map, ← hentered]
    refine congrArg (Option.map · _) (funext fun group => ?_)
    by_cases hid : id' = id <;> simp [hid, Group.bookStream]
  · exact hentered

/-- No operation moves a group other than down its route, and each reports whom it has moved. -/
theorem Coherent.lowered_perform (h : Coherent d p) (hgreedy : p.Greedy) (op : Operation) :
    p.Lowered (p.perform op) (p.reported op) ∧ (p.perform op).Greedy := by
  obtain ⟨hstrategy, hpending⟩ := hgreedy
  have hreaction (e : Edge) : p.Lowered (p.relieve e).1 (p.reported (.relieve e)) ∧
      (p.relieve e).1.Greedy := by
    obtain ⟨q, relief, heq, hlowered, hstrategy', hpending'⟩ := h.lowered_relieve e
    rw [reported, heq]
    exact ⟨hlowered, hstrategy'.trans hstrategy, hpending'.trans hpending⟩
  cases op with
  | arrive accessPoint requested content user =>
      simp only [perform, reported]
      split
      · next admission next harrive =>
          obtain ⟨_, _, _, _, _, rfl⟩ := admitViewer_eq harrive
          exact ⟨lowered_of_same (h.route?_admitViewer harrive) rfl, hstrategy, hpending⟩
      · exact ⟨lowered_of_same (fun hroute => hroute) rfl, hstrategy, hpending⟩
  | react e =>
      obtain ⟨q, relief, heq, -⟩ := h.lowered_relieve e
      have hrelieve := hreaction e
      simp only [reported, heq] at hrelieve
      simp only [perform, reported, react, hstrategy, heq]
      exact hrelieve
  | relieve e => exact hreaction e
  | reallocate candidates =>
      obtain ⟨q, relocations, heq, hlowered, hstrategy', hpending'⟩ :=
        h.lowered_reallocate candidates
      simp only [perform, reported, heq]
      exact ⟨hlowered, hstrategy'.trans hstrategy, hpending'.trans hpending⟩
  | escalate e =>
      simp only [perform, reported, escalate, hstrategy]
      exact ⟨lowered_of_same (fun hroute => hroute) rfl, hstrategy, hpending⟩
  | complete answer =>
      -- Nothing was asked, so nothing is answered.
      have hignored : p.complete answer = (p, { request := answer.request }) :=
        complete_of_not_pending (by rw [hpending]; exact List.not_mem_nil)
      simp only [perform, reported, hignored]
      exact ⟨lowered_of_same (fun hroute => hroute) rfl, hstrategy, hpending⟩
  | activate => exact ⟨lowered_of_same (fun hroute => hroute) rfl, hstrategy, hpending⟩
  | hangUp =>
      refine ⟨lowered_of_same (fun hroute => hroute) rfl, ?_, hpending⟩
      show p.strategy.hungUp = .greedy
      rw [hstrategy]
      rfl

/-! ### Runs -/

theorem Coherent.greedy_run (h : Coherent d p) (hgreedy : p.Greedy) (ops : List Operation) :
    (p.run ops).Greedy := by
  induction ops generalizing p with
  | nil => exact hgreedy
  | cons op rest ih =>
      exact ih (h.changes (h.changes_perform op)).1 (h.lowered_perform hgreedy op).2

/-- Along a run a route loses a hop at least for every move. -/
theorem Coherent.movesOf_run (h : Coherent d p) (hgreedy : p.Greedy) (ops : List Operation)
    {route : Route} (hroute : p.route? id = some route) :
    ∃ now, (p.run ops).route? id = some now ∧ now.hops <:+ route.hops ∧
      Relocation.movesOf id (p.reportedAlong ops) + now.length ≤ route.length := by
  induction ops generalizing p route with
  | nil => exact ⟨route, hroute, List.suffix_rfl, by simp [reportedAlong, Relocation.movesOf]⟩
  | cons op rest ih =>
      obtain ⟨hlowered, hgreedy'⟩ := h.lowered_perform hgreedy op
      obtain ⟨next, hnext, hsuffix⟩ := hlowered.suffix hroute
      obtain ⟨now, hnow, hsuffix', hmoves⟩ :=
        ih (h.changes (h.changes_perform op)).1 hgreedy' hnext
      have hfirst := hlowered.movesOf_le hroute hnext
      refine ⟨now, hnow, hsuffix'.trans hsuffix, ?_⟩
      rw [reportedAlong, Relocation.movesOf_append]
      omega

/-- Of a group that is there in the end all moves are counted from its admission on. -/
theorem Coherent.movesOf_admitted (h : Coherent d p) (hgreedy : p.Greedy) (ops : List Operation)
    {now : Route} (hnow : (p.run ops).route? id = some now) :
    ∃ admitted, p.admissionRoute? id ops = some admitted ∧ now.hops <:+ admitted.hops ∧
      Relocation.movesOf id (p.reportedAlong ops) + now.length ≤ admitted.length := by
  induction ops generalizing p with
  | nil => exact ⟨now, hnow, List.suffix_rfl, by simp [reportedAlong, Relocation.movesOf]⟩
  | cons op rest ih =>
      cases hroute : p.route? id with
      | some route =>
          obtain ⟨now', hnow', hsuffix, hmoves⟩ := h.movesOf_run hgreedy (op :: rest) hroute
          obtain rfl : now = now' := Option.some.inj (hnow.symm.trans hnow')
          exact ⟨route, by rw [admissionRoute?, hroute], hsuffix, hmoves⟩
      | none =>
          obtain ⟨hlowered, hgreedy'⟩ := h.lowered_perform hgreedy op
          obtain ⟨admitted, hadmitted, hsuffix, hmoves⟩ :=
            ih (h.changes (h.changes_perform op)).1 hgreedy' hnow
          have hnobody : Relocation.movesOf id (p.reported op) = 0 := by
            refine List.countP_eq_zero.mpr fun r hr hcounted => ?_
            obtain ⟨old, _, hold, -⟩ := hlowered.told r hr
            obtain ⟨-, rfl⟩ : r.moved = true ∧ r.group = id := by simpa using hcounted
            cases hroute.symm.trans hold
          refine ⟨admitted, by rw [admissionRoute?, hroute]; exact hadmitted, hsuffix, ?_⟩
          rw [reportedAlong, Relocation.movesOf_append, hnobody]
          omega

/-- All moves are on record, and every group that was moved is still there. -/
theorem Coherent.tally_run (h : Coherent d p) (hgreedy : p.Greedy) (ops : List Operation) :
    (p.run ops).tally.relocations =
        p.tally.relocations + (p.reportedAlong ops).countP Relocation.moved ∧
      ∀ r ∈ p.reportedAlong ops, ∃ route, (p.run ops).route? r.group = some route := by
  induction ops generalizing p with
  | nil => exact ⟨rfl, by simp [reportedAlong]⟩
  | cons op rest ih =>
      obtain ⟨hlowered, hgreedy'⟩ := h.lowered_perform hgreedy op
      have hnext := (h.changes (h.changes_perform op)).1
      obtain ⟨htally, hthere⟩ := ih hnext hgreedy'
      constructor
      · rw [reportedAlong, List.countP_append, ← Nat.add_assoc, ← hlowered.tally_eq]
        exact htally
      · intro r hr
        rcases List.mem_append.mp hr with hfirst | hlater
        · obtain ⟨_, new, -, hnew, -⟩ := hlowered.told r hfirst
          obtain ⟨now, hnow, -⟩ := hnext.movesOf_run hgreedy' rest hnew
          exact ⟨now, hnow⟩
        · exact hthere r hlater

end Placement

namespace Deployment

theorem greedy_start (h : d.strategy = .greedy) : d.start.Greedy := ⟨h, rfl⟩

/-- Under the greedy strategy every route is what is left of the route that its group was let in
with, and no group is moved more often than that had hops besides the last. An operation tells that
it has moved a group just if the route of the group got shorter, and all the moves that are on record
are bounded by the hops of the groups' first routes. -/
theorem moves_bounded (d : Deployment α) (hgreedy : d.strategy = .greedy) (ops : List Operation) :
    (∀ id now, (d.after ops).route? id = some now →
      ∃ admitted, d.start.admissionRoute? id ops = some admitted ∧
        now.hops <:+ admitted.hops ∧
        Relocation.movesOf id (d.start.reportedAlong ops) ≤ admitted.length - 1) ∧
    (∀ before op later, ops = before ++ op :: later →
      ∀ r ∈ (d.after before).reported op, ∃ old new,
        (d.after before).route? r.group = some old ∧
        (d.after (before ++ [op])).route? r.group = some new ∧
        (r.moved = true ↔ new.length < old.length)) ∧
    (d.after ops).tally.relocations ≤
      ((d.after ops).registry.groups.map fun group =>
        ((d.start.admissionRoute? group.id ops).map (·.length - 1)).getD 0).sum := by
  have hstart := Placement.coherent_start d
  have hgreedyStart := d.greedy_start hgreedy
  have hbound : ∀ id now, (d.after ops).route? id = some now →
      ∃ admitted, d.start.admissionRoute? id ops = some admitted ∧
        now.hops <:+ admitted.hops ∧
        Relocation.movesOf id (d.start.reportedAlong ops) ≤ admitted.length - 1 := by
    intro id now hnow
    obtain ⟨admitted, hadmitted, hsuffix, hmoves⟩ :=
      hstart.movesOf_admitted hgreedyStart ops hnow
    have hpos : 0 < now.length := by
      obtain ⟨group, hgroup, rfl⟩ := Option.map_eq_some_iff.mp hnow
      exact ((d.coherent_after ops).served hgroup).walk.length_pos
    exact ⟨admitted, hadmitted, hsuffix, by omega⟩
  refine ⟨hbound, ?_, ?_⟩
  · intro before op later _ r hr
    have hgreedyBefore : (d.after before).Greedy := hstart.greedy_run hgreedyStart before
    rw [d.after_append]
    exact ((d.coherent_after before).lowered_perform hgreedyBefore op).1.told r hr
  · obtain ⟨htally, hthere⟩ := hstart.tally_run hgreedyStart ops
    have hnumbered : ∀ {id group}, (d.after ops).registry.group? id = some group →
        group.id = id := (d.coherent_after ops).numbered
    have hlisted : ∀ r ∈ d.start.reportedAlong ops, r.moved = true →
        r.group ∈ (d.after ops).registry.groups.map Group.id := by
      intro r hr _
      obtain ⟨route, hroute⟩ := hthere r hr
      obtain ⟨group, hgroup, -⟩ := Option.map_eq_some_iff.mp hroute
      exact List.mem_map.mpr
        ⟨group, Registry.mem_groups_iff.mpr ⟨_, hgroup⟩, hnumbered hgroup⟩
    calc (d.after ops).tally.relocations
        = (d.start.reportedAlong ops).countP Relocation.moved := htally.trans (Nat.zero_add _)
      _ ≤ (((d.after ops).registry.groups.map Group.id).map fun id =>
            Relocation.movesOf id (d.start.reportedAlong ops)).sum :=
          countP_le_sum_countP _ _ hlisted
      _ = ((d.after ops).registry.groups.map fun group =>
            Relocation.movesOf group.id (d.start.reportedAlong ops)).sum := by
          rw [List.map_map]
          rfl
      _ ≤ _ := List.sum_le_sum fun group hmem => by
          obtain ⟨id, hgroup⟩ := Registry.mem_groups_iff.mp hmem
          obtain ⟨admitted, hadmitted, -, hmoves⟩ :=
            hbound group.id group.route (by rw [Placement.route?, hnumbered hgroup, hgroup]; rfl)
          rw [hadmitted]
          exact hmoves

/-- The group on the line is moved once, from its first server to the second, and there is one more
hop that it could be moved down. -/
theorem moves_bounded_on_line :
    let greedy : Deployment Rat := { line with strategy := .greedy }
    greedy.strategy = .greedy ∧
      greedy.start.admissionRoute? ⟨0⟩ line.rush = some (.ofHops [⟨0⟩, ⟨1⟩, ⟨2⟩]) ∧
      (greedy.after line.rush).tally.relocations = 1 ∧
      Relocation.movesOf ⟨0⟩ (greedy.start.reportedAlong line.rush) ≤ 2 := by
  intro greedy
  have hadmitted : greedy.start.admissionRoute? ⟨0⟩ line.rush =
      some (.ofHops [⟨0⟩, ⟨1⟩, ⟨2⟩]) := by decide +kernel
  have hnow : (greedy.after line.rush).route? ⟨0⟩ = some (.ofHops [⟨1⟩, ⟨2⟩]) := by
    decide +kernel
  obtain ⟨admitted, heq, -, hmoves⟩ := (moves_bounded greedy rfl line.rush).1 ⟨0⟩ _ hnow
  obtain rfl := Option.some.inj (hadmitted.symm.trans heq)
  exact ⟨rfl, hadmitted, by decide +kernel, hmoves⟩

end Deployment

end StreamPlacement
