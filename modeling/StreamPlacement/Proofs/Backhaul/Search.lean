import StreamPlacement.Proofs.Backhaul.BestRoute

/-!
The search for a route finds the best walk.

It settles the nodes in the order of their true distances, and of their numbers where those are
equal. So the first of a node's neighbours to be settled is the nearest of them, and of several the
lowest: it is where the best walk goes, and a label is final as soon as it is there.
-/

namespace StreamPlacement

/-! ### The order of settling -/

theorem Ahead.trans {a b c : Nat × NodeId} (hab : Ahead a b) (hbc : Ahead b c) : Ahead a c := by
  unfold Ahead at *
  omega

theorem eq_or_ahead_of_not_ahead {a b : Nat × NodeId} (h : ¬ Ahead b a) : a = b ∨ Ahead a b := by
  by_cases heq : a.1 = b.1 ∧ a.2.index = b.2.index
  · exact .inl (Prod.ext heq.1 (Id.index_injective heq.2))
  · unfold Ahead at *
    omega

theorem foremost?_eq_none {nodes : List (Nat × NodeId)} (h : foremost? nodes = none) :
    nodes = [] := by
  cases nodes with
  | nil => rfl
  | cons a rest =>
      unfold foremost? at h
      split at h <;> cases h

theorem foremost?_eq_some {nodes : List (Nat × NodeId)} {a : Nat × NodeId}
    (h : foremost? nodes = some a) : a ∈ nodes ∧ ∀ b ∈ nodes, a = b ∨ Ahead a b := by
  induction nodes generalizing a with
  | nil => cases h
  | cons first rest ih =>
      unfold foremost? at h
      cases hrest : foremost? rest with
      | none =>
          rw [hrest] at h
          obtain rfl := Option.some.inj h
          rw [foremost?_eq_none hrest]
          simp
      | some best =>
          rw [hrest] at h
          obtain ⟨hmem, hbest⟩ := ih hrest
          dsimp only at h
          split at h
          · next hahead =>
              obtain rfl := Option.some.inj h
              exact ⟨List.mem_cons_of_mem _ hmem, List.forall_mem_cons.mpr ⟨.inr hahead, hbest⟩⟩
          · next hnot =>
              obtain rfl := Option.some.inj h
              refine ⟨List.mem_cons_self, List.forall_mem_cons.mpr ⟨.inl rfl, fun b hb => ?_⟩⟩
              rcases eq_or_ahead_of_not_ahead hnot with rfl | hfirst
              · exact hbest b hb
              · rcases hbest b hb with rfl | hahead
                · exact .inr hfirst
                · exact .inr (hfirst.trans hahead)

/-! ### Labels -/

namespace Labels

variable {labels : Labels} {u v : NodeId} {label label' : Label} {distance : Nat}

theorem size_put (labels : Labels) (u : NodeId) (label : Label) :
    (labels.put u label).size = labels.size := Array.size_setIfInBounds

theorem get?_put (h : u.index < labels.size) (label : Label) (v : NodeId) :
    (labels.put u label).get? v = if u = v then some label else labels.get? v := by
  rw [get?, put, Array.getElem?_setIfInBounds]
  by_cases heq : u = v
  · subst heq
    simp [h]
  · rw [if_neg fun hindex => heq (Id.index_injective hindex), if_neg heq, get?]

theorem get?_put_cases (h : u.index < labels.size)
    (hv : (labels.put u label).get? v = some label') :
    (v = u ∧ label' = label) ∨ labels.get? v = some label' := by
  rw [get?_put h] at hv
  split at hv
  · next heq => exact .inl ⟨heq.symm, (Option.some.inj hv).symm⟩
  · exact .inr hv

theorem lt_size_of_get? (h : labels.get? u = some label) : u.index < labels.size := by
  by_contra hout
  rw [get?, Array.getElem?_eq_none (by omega)] at h
  cases h

theorem relax_of_none (h : labels.get? v = none) (distance : Nat) (u : NodeId) :
    labels.relax distance u v = labels.put v ⟨distance + 1, u, false⟩ := by
  rw [relax, h]

theorem relax_of_near (h : labels.get? v = some label) (hnear : label.distance ≤ distance + 1)
    (u : NodeId) : labels.relax distance u v = labels := by
  rw [relax, h]
  simp [Nat.not_lt.mpr hnear]

theorem mem_unsettled :
    (distance, u) ∈ labels.unsettled ↔
      ∃ label, labels.get? u = some label ∧ label.settled = false ∧ label.distance = distance := by
  simp only [unsettled, List.mem_filterMap, List.mem_range, Option.bind_eq_some_iff]
  constructor
  · rintro ⟨i, -, label, hlabel, hopen⟩
    split at hopen
    · cases hopen
    · next hnot =>
        cases hopen
        exact ⟨label, hlabel, by simpa using hnot, rfl⟩
  · rintro ⟨label, hlabel, hopen, rfl⟩
    exact ⟨u.index, lt_size_of_get? hlabel, label, hlabel, by simp [hopen]⟩

theorem settle_eq (h : labels.get? u = some label) :
    labels.settle u = labels.put u { label with settled := true } := by
  rw [settle, h]

/-- Settling a node changes nothing but the mark of that node. -/
theorem get?_settle_cases (h : labels.get? u = some label)
    (hv : (labels.settle u).get? v = some label') :
    ∃ before, labels.get? v = some before ∧ label'.distance = before.distance ∧
      label'.next = before.next ∧ (label'.settled = true ↔ v = u ∨ before.settled = true) := by
  rw [settle_eq h] at hv
  by_cases heq : v = u
  · subst heq
    rw [get?_put (lt_size_of_get? h), if_pos rfl] at hv
    obtain rfl := Option.some.inj hv
    exact ⟨label, h, rfl, rfl, by simp⟩
  · rw [get?_put (lt_size_of_get? h), if_neg (Ne.symm heq)] at hv
    exact ⟨label', hv, rfl, rfl, by simp [heq]⟩

theorem get?_settle_of_some (h : labels.get? u = some label) (hv : labels.get? v = some label') :
    ∃ after, (labels.settle u).get? v = some after ∧
      (after.settled = true ↔ v = u ∨ label'.settled = true) := by
  rw [settle_eq h]
  by_cases heq : v = u
  · subst heq
    exact ⟨_, by rw [get?_put (lt_size_of_get? h), if_pos rfl], by simp⟩
  · exact ⟨label', by rw [get?_put (lt_size_of_get? h), if_neg (Ne.symm heq), hv], by simp [heq]⟩

end Labels

namespace Topology

variable {α : Type} {t : Topology α} {source dest u v : NodeId} {settled expanded : List NodeId}
  {labels : Labels} {distance : Nat}

/-! ### What the search keeps -/

/-- The label has the true distance, and leads to the lowest of the neighbours that are nearer. -/
structure Final (t : Topology α) (dest u : NodeId) (label : Label) : Prop where
  distance : t.Distance dest u label.distance
  next : ∀ {count}, label.distance = count + 1 → t.Joined u label.next ∧
    t.Distance dest label.next count ∧
      ∀ w, t.Joined u w → t.Distance dest w count → label.next.index ≤ w.index

/-- How the search stands once some nodes are settled and the neighbours of some of these have been
looked at: all labels are final, and the settled nodes are ahead of all others. -/
structure Explored (t : Topology α) (dest : NodeId) (settled expanded : List NodeId)
    (labels : Labels) : Prop where
  size_eq : labels.size = t.size
  nodup : settled.Nodup
  dest_mem : dest ∈ settled
  settled_iff : ∀ {u}, u ∈ settled ↔ ∃ label, labels.get? u = some label ∧ label.settled = true
  final : ∀ {u label}, labels.get? u = some label → t.Final dest u label
  next_mem : ∀ {u label}, labels.get? u = some label → label.next ∈ settled
  reached : ∀ {u v}, u ∈ expanded → t.Joined u v → ∃ label, labels.get? v = some label
  ahead : ∀ {u v a b}, u ∈ settled → v ∉ settled → t.Distance dest u a → t.Distance dest v b →
    Ahead (a, u) (b, v)

theorem explored_start (hdest : dest.index < t.size) :
    t.Explored dest [dest] [] (Labels.start t.size dest) := by
  have hsize : dest.index < Array.size (Array.replicate t.size (none : Option Label)) := by
    simpa using hdest
  have hget : ∀ u, (Labels.start t.size dest).get? u =
      if dest = u then some ⟨0, dest, true⟩ else none := by
    intro u
    rw [Labels.start, Labels.get?_put hsize, Labels.get?, Array.getElem?_replicate]
    by_cases hu : u.index < t.size <;> simp [hu]
  have honly : ∀ {u label}, (Labels.start t.size dest).get? u = some label →
      u = dest ∧ label = ⟨0, dest, true⟩ := by
    intro u label h
    rw [hget] at h
    split at h
    · next heq => exact ⟨heq.symm, (Option.some.inj h).symm⟩
    · cases h
  constructor
  case size_eq => rw [Labels.start, Labels.size_put, Array.size_replicate]
  case nodup => exact List.nodup_singleton dest
  case dest_mem => exact List.mem_singleton_self dest
  case settled_iff =>
    intro u
    rw [List.mem_singleton]
    constructor
    · rintro rfl
      exact ⟨⟨0, u, true⟩, by rw [hget, if_pos rfl], rfl⟩
    · rintro ⟨label, h, -⟩
      exact (honly h).1
  case final =>
    intro u label h
    obtain ⟨rfl, rfl⟩ := honly h
    exact ⟨distance_zero_iff.mpr rfl, fun hcount => by cases hcount⟩
  case next_mem =>
    intro u label h
    obtain ⟨rfl, rfl⟩ := honly h
    exact List.mem_singleton_self u
  case reached =>
    intro u v h
    cases h
  case ahead =>
    intro u v a b hu hv ha hb
    obtain rfl := List.mem_singleton.mp hu
    obtain rfl := ha.unique (distance_zero_iff.mpr rfl)
    refine .inl (Nat.pos_of_ne_zero ?_)
    rintro rfl
    exact hv (List.mem_singleton.mpr (distance_zero_iff.mp hb))

/-! ### Looking at neighbours -/

/-- A label that a settled node gives to an unlabelled neighbour is final. -/
theorem Explored.final_of_none (h : t.Explored dest (u :: expanded) expanded labels)
    (hdist : t.Distance dest u distance) (joined : t.Joined u v) (hnone : labels.get? v = none) :
    t.Final dest v ⟨distance + 1, u, false⟩ := by
  have hfar : v ∉ u :: expanded := by
    intro hmem
    obtain ⟨label, hlabel, -⟩ := h.settled_iff.mp hmem
    rw [hnone] at hlabel
    cases hlabel
  -- Any other settled neighbour would have labelled the node already.
  have hothers : ∀ {w count}, t.Joined v w → t.Distance dest w count →
      w = u ∨ Ahead (distance, u) (count, w) := by
    intro w count joined' hdist'
    by_cases hmem : w ∈ u :: expanded
    · rcases List.mem_cons.mp hmem with heq | hin
      · exact .inl heq
      · obtain ⟨label, hlabel⟩ := h.reached hin joined'.symm
        rw [hnone] at hlabel
        cases hlabel
    · exact .inr (h.ahead List.mem_cons_self hmem hdist hdist')
  have hv : t.Distance dest v (distance + 1) := by
    rw [distance_succ_iff]
    refine ⟨⟨u, joined.symm, hdist⟩, fun k hk hdist' => ?_⟩
    have hbehind := h.ahead List.mem_cons_self hfar hdist hdist'
    cases k with
    | zero =>
        obtain rfl := distance_zero_iff.mp hdist'
        exact hfar h.dest_mem
    | succ k =>
        obtain ⟨⟨w, joined', hnear⟩, -⟩ := distance_succ_iff.mp hdist'
        rcases hothers joined' hnear with rfl | hahead
        · have := hdist.unique hnear
          omega
        · simp only [Ahead] at hbehind hahead
          omega
  refine ⟨hv, fun {count} hcount => ?_⟩
  obtain rfl : distance = count := by simpa using hcount
  refine ⟨joined.symm, hdist, fun w joined' hdist' => ?_⟩
  rcases hothers joined' hdist' with rfl | hahead
  · exact Nat.le_refl _
  · simp only [Ahead] at hahead
    dsimp only
    omega

/-- A node without a label may be given a final one. -/
theorem Explored.put (h : t.Explored dest settled expanded labels) {label : Label}
    (hnone : labels.get? v = none) (hinside : v.index < t.size) (hfinal : t.Final dest v label)
    (hopen : label.settled = false) (hnext : label.next ∈ settled) :
    t.Explored dest settled expanded (labels.put v label) ∧
      ∀ {w label'}, labels.get? w = some label' → (labels.put v label).get? w = some label' := by
  have hin : v.index < labels.size := h.size_eq ▸ hinside
  have hkept : ∀ {w label'}, labels.get? w = some label' →
      (labels.put v label).get? w = some label' := by
    intro w label' hw
    rw [Labels.get?_put hin, if_neg, hw]
    rintro rfl
    rw [hnone] at hw
    cases hw
  refine ⟨?_, hkept⟩
  constructor
  case size_eq => rw [Labels.size_put, h.size_eq]
  case nodup => exact h.nodup
  case dest_mem => exact h.dest_mem
  case settled_iff =>
    intro w
    rw [h.settled_iff]
    constructor
    · rintro ⟨label', hw, hsettled⟩
      exact ⟨label', hkept hw, hsettled⟩
    · rintro ⟨label', hw, hsettled⟩
      rcases Labels.get?_put_cases hin hw with ⟨-, rfl⟩ | hw
      · rw [hopen] at hsettled
        cases hsettled
      · exact ⟨label', hw, hsettled⟩
  case final =>
    intro w label' hw
    rcases Labels.get?_put_cases hin hw with ⟨rfl, rfl⟩ | hw
    · exact hfinal
    · exact h.final hw
  case next_mem =>
    intro w label' hw
    rcases Labels.get?_put_cases hin hw with ⟨rfl, rfl⟩ | hw
    · exact hnext
    · exact h.next_mem hw
  case reached =>
    intro w x hw joined
    obtain ⟨label', hx⟩ := h.reached hw joined
    exact ⟨label', hkept hx⟩
  case ahead => exact h.ahead

/-- Looking at one neighbour of a settled node labels it, and changes no label that is there. -/
theorem Explored.relax (hwired : t.Wired) (h : t.Explored dest (u :: expanded) expanded labels)
    (hdist : t.Distance dest u distance) (joined : t.Joined u v) :
    t.Explored dest (u :: expanded) expanded (labels.relax distance u v) ∧
      (∃ label, (labels.relax distance u v).get? v = some label) ∧
      ∀ {w label}, labels.get? w = some label →
        (labels.relax distance u v).get? w = some label := by
  cases hv : labels.get? v with
  | some label =>
      have hnear : label.distance ≤ distance + 1 := by
        obtain ⟨hops, hwalk, hlen⟩ := hdist.attained
        have := (h.final hv).distance.least _ (.hop joined.symm hwalk)
        simp only [List.length_cons] at this
        omega
      rw [Labels.relax_of_near hv hnear]
      exact ⟨h, ⟨label, hv⟩, id⟩
  | none =>
      have hinside := (hwired.joined_inside joined).2
      obtain ⟨hput, hkept⟩ := h.put hv hinside (h.final_of_none hdist joined hv) rfl
        List.mem_cons_self
      rw [Labels.relax_of_none hv]
      exact ⟨hput, ⟨_, by rw [Labels.get?_put (h.size_eq ▸ hinside), if_pos rfl]⟩, hkept⟩

theorem Explored.relaxAll (hwired : t.Wired)
    (h : t.Explored dest (u :: expanded) expanded labels) (hdist : t.Distance dest u distance)
    {nodes : List NodeId} (hjoined : ∀ v ∈ nodes, t.Joined u v) :
    t.Explored dest (u :: expanded) expanded (nodes.foldl (Labels.relax distance u) labels) ∧
      (∀ v ∈ nodes, ∃ label, (nodes.foldl (Labels.relax distance u) labels).get? v = some label) ∧
      ∀ {w label}, labels.get? w = some label →
        (nodes.foldl (Labels.relax distance u) labels).get? w = some label := by
  induction nodes generalizing labels with
  | nil => exact ⟨h, by simp, id⟩
  | cons v rest ih =>
      obtain ⟨hv, hrest⟩ := List.forall_mem_cons.mp hjoined
      obtain ⟨hone, ⟨label, hlabel⟩, hkept⟩ := h.relax hwired hdist hv
      obtain ⟨hall, hlabelled, hkept'⟩ := ih hone hrest
      rw [List.foldl_cons]
      refine ⟨hall, List.forall_mem_cons.mpr ⟨⟨label, hkept' hlabel⟩, hlabelled⟩, ?_⟩
      exact fun hw => hkept' (hkept hw)

theorem Explored.expand (hwired : t.Wired)
    (h : t.Explored dest (u :: expanded) expanded labels) (hdist : t.Distance dest u distance) :
    t.Explored dest (u :: expanded) (u :: expanded)
      ((t.neighbours u).foldl (Labels.relax distance u) labels) := by
  obtain ⟨hall, hlabelled, -⟩ :=
    h.relaxAll hwired hdist fun v hv => hwired.mem_neighbours.mp hv
  refine ⟨hall.size_eq, hall.nodup, hall.dest_mem, hall.settled_iff, hall.final, hall.next_mem,
    fun hw joined => ?_, hall.ahead⟩
  rcases List.mem_cons.mp hw with rfl | hw
  · exact hlabelled _ (hwired.mem_neighbours.mpr joined)
  · exact hall.reached hw joined

/-! ### Settling -/

/-- As long as some connected node is not settled, one that is labelled is not, and it is no further
away. -/
theorem Explored.frontier (h : t.Explored dest settled settled labels) (hv : v ∉ settled)
    (hdist : t.Distance dest v distance) :
    ∃ a ∈ labels.unsettled, a = (distance, v) ∨ Ahead a (distance, v) := by
  induction distance generalizing v with
  | zero =>
      obtain rfl := distance_zero_iff.mp hdist
      exact absurd h.dest_mem hv
  | succ count ih =>
      obtain ⟨⟨w, joined, hnear⟩, -⟩ := distance_succ_iff.mp hdist
      by_cases hw : w ∈ settled
      · obtain ⟨label, hlabel⟩ := h.reached hw joined.symm
        have hopen : label.settled = false := by
          by_contra hsettled
          exact hv (h.settled_iff.mpr ⟨label, hlabel, by simpa using hsettled⟩)
        have hcount := (h.final hlabel).distance.unique hdist
        exact ⟨_, Labels.mem_unsettled.mpr ⟨label, hlabel, hopen, hcount⟩, .inl rfl⟩
      · obtain ⟨a, ha, hle⟩ := ih hw hnear
        refine ⟨a, ha, .inr ?_⟩
        have hstep : Ahead (count, w) (count + 1, v) := .inl (Nat.lt_succ_self count)
        rcases hle with rfl | hahead
        · exact hstep
        · exact hahead.trans hstep

theorem Explored.settle (h : t.Explored dest settled settled labels)
    (hnext : foremost? labels.unsettled = some (distance, u)) :
    t.Explored dest (u :: settled) settled (labels.settle u) ∧ t.Distance dest u distance := by
  obtain ⟨hmem, hforemost⟩ := foremost?_eq_some hnext
  obtain ⟨label, hlabel, hopen, rfl⟩ := Labels.mem_unsettled.mp hmem
  have hdist := (h.final hlabel).distance
  have hfar : u ∉ settled := by
    intro hu
    obtain ⟨label', hlabel', hsettled⟩ := h.settled_iff.mp hu
    obtain rfl : label = label' := Option.some.inj (hlabel.symm.trans hlabel')
    rw [hopen] at hsettled
    cases hsettled
  refine ⟨?_, hdist⟩
  constructor
  case size_eq => rw [Labels.settle_eq hlabel, Labels.size_put, h.size_eq]
  case nodup => exact List.nodup_cons.mpr ⟨hfar, h.nodup⟩
  case dest_mem => exact List.mem_cons_of_mem _ h.dest_mem
  case settled_iff =>
    intro w
    rw [List.mem_cons, h.settled_iff]
    constructor
    · rintro (rfl | ⟨before, hw, hsettled⟩)
      · obtain ⟨label', hlabel', hiff⟩ := Labels.get?_settle_of_some hlabel hlabel
        exact ⟨label', hlabel', hiff.mpr (.inl rfl)⟩
      · obtain ⟨label', hlabel', hiff⟩ := Labels.get?_settle_of_some hlabel hw
        exact ⟨label', hlabel', hiff.mpr (.inr hsettled)⟩
    · rintro ⟨label', hw, hsettled⟩
      obtain ⟨before, hbefore, -, -, hiff⟩ := Labels.get?_settle_cases hlabel hw
      rcases hiff.mp hsettled with heq | hsettled
      · exact .inl heq
      · exact .inr ⟨before, hbefore, hsettled⟩
  case final =>
    intro w label' hw
    obtain ⟨before, hbefore, hdistance, hnext', -⟩ := Labels.get?_settle_cases hlabel hw
    have hfinal := h.final hbefore
    refine ⟨hdistance ▸ hfinal.distance, fun hcount => ?_⟩
    rw [hnext']
    exact hfinal.next (hdistance ▸ hcount)
  case next_mem =>
    intro w label' hw
    obtain ⟨before, hbefore, -, hnext', -⟩ := Labels.get?_settle_cases hlabel hw
    rw [hnext']
    exact List.mem_cons_of_mem _ (h.next_mem hbefore)
  case reached =>
    intro w x hw joined
    obtain ⟨before, hx⟩ := h.reached hw joined
    obtain ⟨label', hx', -⟩ := Labels.get?_settle_of_some hlabel hx
    exact ⟨label', hx'⟩
  case ahead =>
    intro w v a b hw hv ha hb
    obtain ⟨hne, hfar'⟩ := List.ne_and_not_mem_of_not_mem_cons hv
    rcases List.mem_cons.mp hw with rfl | hw
    · obtain rfl := ha.unique hdist
      -- No node that is left is ahead of the frontier, and the frontier is not ahead of `w`.
      obtain ⟨other, hother, hle⟩ := h.frontier hfar' hb
      rcases hforemost other hother with rfl | hfirst
      · exact hle.resolve_left fun heq => hne (congrArg Prod.snd heq).symm
      · rcases hle with rfl | hahead
        · exact hfirst
        · exact hfirst.trans hahead
    · exact h.ahead hw hfar' ha hb

/-! ### The whole search -/

/-- The labels name the hops of the best walk. -/
theorem Explored.best_hopsFrom (h : t.Explored dest settled expanded labels) {label : Label}
    (hlabel : labels.get? u = some label) :
    t.Best u dest (labels.hopsFrom label.distance u) := by
  have hfinal := h.final hlabel
  generalize hcount : label.distance = count
  induction count generalizing u label with
  | zero =>
      obtain rfl := distance_zero_iff.mp (hcount ▸ hfinal.distance)
      exact best_self u
  | succ count ih =>
      obtain ⟨joined, hnear, hlowest⟩ := hfinal.next hcount
      obtain ⟨label', hlabel', -⟩ := h.settled_iff.mp (h.next_mem hlabel)
      have hfinal' := h.final hlabel'
      have hrest := ih hlabel' hfinal' (hfinal'.distance.unique hnear)
      rw [Labels.hopsFrom, hlabel]
      exact hrest.hop (hcount ▸ hfinal.distance) joined hnear hlowest

/-- The search finds the best walk, or there is none. It does not run out of steps: each step
settles another node. -/
theorem Explored.search (hwired : t.Wired) (h : t.Explored dest (u :: expanded) expanded labels)
    (hdist : t.Distance dest u distance) (hsource : source ∉ expanded) {steps : Nat}
    (hsteps : t.size ≤ expanded.length + steps) :
    (∃ hops, t.Best source dest hops ∧
        t.search source steps labels (distance, u) = some hops) ∨
      (¬ t.Connected source dest ∧ t.search source steps labels (distance, u) = none) := by
  induction steps generalizing u expanded labels distance with
  | zero =>
      have hinside : ∀ w ∈ u :: expanded, w.index < t.size := by
        intro w hw
        obtain ⟨label, hlabel, -⟩ := h.settled_iff.mp hw
        exact h.size_eq ▸ Labels.lt_size_of_get? hlabel
      -- All nodes of the table would be settled, and one more.
      have := length_le_of_inside h.nodup hinside
      simp only [List.length_cons] at this
      omega
  | succ steps ih =>
      rw [Topology.search]
      by_cases heq : u = source
      · subst heq
        obtain ⟨label, hlabel, -⟩ := h.settled_iff.mp List.mem_cons_self
        obtain rfl := (h.final hlabel).distance.unique hdist
        exact .inl ⟨_, h.best_hopsFrom hlabel, by rw [if_pos rfl]⟩
      · rw [if_neg heq]
        have hexpanded := h.expand hwired hdist
        have hsource' : source ∉ u :: expanded := by
          rw [List.mem_cons, not_or]
          exact ⟨Ne.symm heq, hsource⟩
        dsimp only
        cases hnext : foremost?
            (Labels.unsettled ((t.neighbours u).foldl (Labels.relax distance u) labels)) with
        | none =>
            refine .inr ⟨?_, rfl⟩
            rintro ⟨hops, hwalk⟩
            obtain ⟨count, hcount, -⟩ := hwalk.exists_distance
            obtain ⟨a, ha, -⟩ := hexpanded.frontier hsource' hcount
            rw [foremost?_eq_none hnext] at ha
            cases ha
        | some next =>
            obtain ⟨hsettled, hnear⟩ := hexpanded.settle hnext
            refine ih hsettled hnear hsource' ?_
            simp only [List.length_cons]
            omega

/-! ### Routes -/

theorem contains_iff : t.contains u = true ↔ u.index < t.size := by
  simp [contains]

theorem isBuilt_of_inside (h : u.index < t.size) : t.isBuilt = true := by
  simp only [isBuilt, decide_eq_true_eq]
  omega

/-- Between two nodes of the table there is the best walk, or none. -/
theorem Wired.route_cases (hwired : t.Wired) (hsource : source.index < t.size)
    (hdest : dest.index < t.size) :
    (∃ hops, t.Best source dest hops ∧ t.route source dest = .ok (.ofHops hops)) ∨
      (¬ t.Connected source dest ∧ t.route source dest = .error (.noRoute source dest)) := by
  have hbuilt := isBuilt_of_inside hsource
  have hsource' := contains_iff.mpr hsource
  have hdest' := contains_iff.mpr hdest
  have hsteps : t.size ≤ ([] : List NodeId).length + t.size := by simp
  rcases (explored_start hdest).search hwired (distance_zero_iff.mpr rfl) (List.not_mem_nil)
      hsteps with ⟨hops, hbest, heq⟩ | ⟨hnone, heq⟩
  · exact .inl ⟨hops, hbest, by simp [route, hbuilt, hsource', hdest', heq]⟩
  · exact .inr ⟨hnone, by simp [route, hbuilt, hsource', hdest', heq]⟩

theorem inside_of_route {r : Route} (h : t.route source dest = .ok r) :
    source.index < t.size ∧ dest.index < t.size := by
  unfold route at h
  split at h
  · cases h
  · split at h
    · cases h
    · split at h
      · cases h
      · next hsource hdest =>
          simp only [Bool.not_eq_true', Bool.not_eq_false] at hsource hdest
          exact ⟨contains_iff.mp hsource, contains_iff.mp hdest⟩

/-- What a route is, where there is one. -/
theorem Wired.route_eq_ok_iff (hwired : t.Wired) {r : Route} :
    t.route source dest = .ok r ↔
      source.index < t.size ∧ dest.index < t.size ∧ t.Best source dest r.hops ∧ r.cursor = 0 := by
  constructor
  · intro h
    obtain ⟨hsource, hdest⟩ := inside_of_route h
    rcases hwired.route_cases hsource hdest with ⟨hops, hbest, hroute⟩ | ⟨-, hroute⟩
    · rw [hroute] at h
      obtain rfl := Except.ok.inj h
      exact ⟨hsource, hdest, hbest, rfl⟩
    · rw [hroute] at h
      cases h
  · rintro ⟨hsource, hdest, hbest, hcursor⟩
    rcases hwired.route_cases hsource hdest with ⟨hops, hbest', hroute⟩ | ⟨hnone, -⟩
    · obtain ⟨hops', cursor⟩ := r
      obtain rfl : hops' = hops := hbest.unique hbest'
      obtain rfl : cursor = 0 := hcursor
      exact hroute
    · exact absurd ⟨_, hbest.walk⟩ hnone

/-- From any hop of a route on, the route is what remains of it. -/
theorem Wired.route_suffix (hwired : t.Wired) {before rest : List NodeId} {r : Route}
    (h : t.route source dest = .ok r) (hhops : r.hops = before ++ u :: rest) :
    t.route u dest = .ok (.ofHops (u :: rest)) := by
  obtain ⟨-, hdest, hbest, -⟩ := hwired.route_eq_ok_iff.mp h
  have hu : u.index < t.size := hwired.walk_inside hbest.walk hdest u (by simp [hhops])
  rw [hhops] at hbest
  exact hwired.route_eq_ok_iff.mpr ⟨hu, hdest, hbest.suffix, rfl⟩

end StreamPlacement.Topology
