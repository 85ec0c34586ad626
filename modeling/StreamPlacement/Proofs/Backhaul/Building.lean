import StreamPlacement.Proofs.Backhaul.Walk
import StreamPlacement.Proofs.Container.Failing

/-!
Building a topology as it happens, one write after the other.

The lists of neighbours are filled link by link, and a link end outside is found out when its link
is reached, with the links in front of it entered already. All of this happens on new lists: nothing
of the topology is written before every node and every link end is known to be inside. So a build
that refuses leaves the topology as it was. A build that succeeds leaves lists in which two nodes
stand as often as there are links between them, whichever way these were declared.
-/

namespace StreamPlacement.Topology

variable {α : Type}

/-! ### Lists of neighbours -/

/-- Whether an end of a link lies outside of the first `n` nodes. -/
def endOutside (n : Nat) (link : Link α) : Bool := n ≤ link.src.index || n ≤ link.dst.index

/-- Enters each end of a link in the list of the other. -/
def enterLink (lists : Array (List NodeId)) (link : Link α) : Array (List NodeId) :=
  (lists.modify link.src.index (· ++ [link.dst])).modify link.dst.index (· ++ [link.src])

/-- Enters links one after the other, up to the first that has an end outside. -/
def enterLinks (n : Nat) : List (Link α) → Array (List NodeId) →
    Except Fault (Array (List NodeId))
  | [], lists => .ok lists
  | link :: links, lists =>
    if endOutside n link then .error (.topology (.linkOutside link.src link.dst n))
    else enterLinks n links (enterLink lists link)

theorem size_enterLink (lists : Array (List NodeId)) (link : Link α) :
    (enterLink lists link).size = lists.size := by
  simp [enterLink]

/-- The list of a node grows by the far ends of the link. -/
theorem getElem_enterLink {lists : Array (List NodeId)} (link : Link α) {i : Nat}
    (hi : i < lists.size) (hi' : i < (enterLink lists link).size) :
    (enterLink lists link)[i] = lists[i] ++ farEnds [link] ⟨i⟩ := by
  obtain ⟨⟨s⟩, ⟨d⟩, rate, delay, loss, buffer⟩ := link
  simp only [enterLink, Array.getElem_modify, farEnds, List.flatMap_cons, List.flatMap_nil,
    List.append_nil, Id.mk.injEq]
  by_cases hs : s = i <;> by_cases hd : d = i <;> simp [hs, hd]

theorem farEnds_cons (link : Link α) (links : List (Link α)) (u : NodeId) :
    farEnds (link :: links) u = farEnds [link] u ++ farEnds links u := by
  simp [farEnds]

/-- Entering all links adds their far ends to the lists, unless an end lies outside. -/
theorem enterLinks_eq {n : Nat} (links : List (Link α)) (lists : Array (List NodeId)) :
    enterLinks n links lists =
      match links.find? (endOutside n) with
      | some link => .error (.topology (.linkOutside link.src link.dst n))
      | none => .ok (lists.mapIdx fun i list => list ++ farEnds links ⟨i⟩) := by
  induction links generalizing lists with
  | nil =>
      have hsame : (lists.mapIdx fun i list => list ++ farEnds ([] : List (Link α)) ⟨i⟩) = lists := by
        refine Array.ext (by simp) fun i hi hi' => ?_
        simp [farEnds]
      rw [enterLinks, List.find?_nil, hsame]
  | cons link links ih =>
      rw [enterLinks, List.find?_cons]
      cases houtside : endOutside n link with
      | true => rfl
      | false =>
          have hlists : ((enterLink lists link).mapIdx fun i list => list ++ farEnds links ⟨i⟩) =
              lists.mapIdx fun i list => list ++ farEnds (link :: links) ⟨i⟩ := by
            refine Array.ext (by simp [size_enterLink]) fun i hi hi' => ?_
            have hsize : i < lists.size := by simpa using hi'
            rw [Array.getElem_mapIdx, Array.getElem_mapIdx, getElem_enterLink link hsize,
              farEnds_cons link links, List.append_assoc]
          simp only [Bool.false_eq_true, if_false, ih, hlists]

/-- Two nodes are neighbours as often as there are links between them. -/
theorem count_farEnds {u v : NodeId} (h : u ≠ v) (links : List (Link α)) :
    (farEnds links u).count v = links.countP (·.joins (u, v)) := by
  induction links with
  | nil => rfl
  | cons link links ih =>
      have hone : (farEnds [link] u).count v = if link.joins (u, v) then 1 else 0 := by
        simp only [Link.joins_iff, farEnds, List.flatMap_cons, List.flatMap_nil, List.append_nil]
        by_cases hsrc : link.src = u
        · have hdst : link.src ≠ v := fun hv => h (hsrc.symm.trans hv)
          by_cases hd : link.dst = u <;> by_cases hv : link.dst = v <;>
            simp_all
        · by_cases hd : link.dst = u <;> by_cases hv : link.src = v <;> simp_all
      rw [farEnds_cons, List.count_append, hone, ih, List.countP_cons, Nat.add_comm]

theorem countP_joins_comm (links : List (Link α)) (u v : NodeId) :
    links.countP (·.joins (u, v)) = links.countP (·.joins (v, u)) :=
  congrArg (links.countP ·) (funext fun link => link.joins_swap (v, u))

/-- So each is a neighbour of the other as often. -/
theorem count_farEnds_comm (links : List (Link α)) (u v : NodeId) :
    (farEnds links u).count v = (farEnds links v).count u := by
  by_cases huv : u = v
  · rw [huv]
  · rw [count_farEnds huv, count_farEnds (Ne.symm huv), countP_joins_comm]

/-- From empty lists, each node gets the far ends of its links. -/
theorem enterLinks_replicate (n : Nat) (links : List (Link α)) :
    enterLinks n links (Array.replicate n []) =
      match links.find? (endOutside n) with
      | some link => .error (.topology (.linkOutside link.src link.dst n))
      | none => .ok ((Array.range n).map fun i => farEnds links ⟨i⟩) := by
  have hlists : ((Array.replicate n []).mapIdx fun i list => list ++ farEnds links ⟨i⟩) =
      (Array.range n).map fun i => farEnds links ⟨i⟩ :=
    Array.ext (by simp) fun i hi hi' => by simp
  rw [enterLinks_eq, hlists]

/-! ### Nodes and links inside -/

/-- Every node lies among the first `n`. -/
def NodesInside (t : Topology α) (n : Nat) : Prop := ∀ node ∈ t.nodes, node.id.index < n

/-- Every end of a link lies among the first `n`. -/
def LinksInside (t : Topology α) (n : Nat) : Prop :=
  ∀ link ∈ t.links, link.src.index < n ∧ link.dst.index < n

instance (t : Topology α) (n : Nat) : Decidable (t.NodesInside n) :=
  inferInstanceAs (Decidable (∀ node ∈ t.nodes, node.id.index < n))

instance (t : Topology α) (n : Nat) : Decidable (t.LinksInside n) :=
  inferInstanceAs (Decidable (∀ link ∈ t.links, link.src.index < n ∧ link.dst.index < n))

theorem not_nodesInside {t : Topology α} {n : Nat} {node : Node}
    (h : t.nodes.find? (n ≤ ·.id.index) = some node) : ¬ t.NodesInside n := fun hinside => by
  have houtside : n ≤ node.id.index := by simpa using List.find?_some h
  exact Nat.not_lt.mpr houtside (hinside node (List.mem_of_find?_eq_some h))

theorem not_linksInside {t : Topology α} {n : Nat} {link : Link α}
    (h : t.links.find? (endOutside n) = some link) : ¬ t.LinksInside n := fun hinside => by
  have houtside : n ≤ link.src.index ∨ n ≤ link.dst.index := by
    simpa [endOutside] using List.find?_some h
  have := hinside link (List.mem_of_find?_eq_some h)
  omega

/-! ### Builds -/

variable [Quantity α]

/-- A build in the order of its checks and writes. Between the two writes room is asked for once
more. -/
def buildInPlace (n : Nat) : ExceptT Fault (StateM (Topology α)) Unit := do
  let t ← get
  match t.nodes.find? (n ≤ ·.id.index) with
  | some node => throw (.topology (.nodeOutside node.id n))
  | none =>
    liftM (reserve n 24)
    let adjacency ← liftM (enterLinks n t.links (Array.replicate n []))
    modify fun t => { t with nodes := sortByKey (·.id.index) t.nodes, adjacency }
    liftM (reserve (n * n) 8)
    modify fun t => { t with loads := .zero n }

/-- What a build answers, and the topology that it leaves behind. -/
def rebuild (t : Topology α) (n : Nat) : Except Fault Unit × Topology α :=
  (buildInPlace n).run.run t

/-- The ends a build can come to, each with its answer and with the topology it leaves. -/
inductive BuildEnd (t : Topology α) (n : Nat) : Except Fault Unit × Topology α → Prop
  | nodeOutside {node : Node} (found : t.nodes.find? (n ≤ ·.id.index) = some node) :
      BuildEnd t n (.error (.topology (.nodeOutside node.id n)), t)
  | noRoomForLists (nodes : t.NodesInside n) (beyond : memoryEnd ≤ n * 24) :
      BuildEnd t n (.error (.breakdown .beyondMemory), t)
  | linkOutside {link : Link α} (nodes : t.NodesInside n) (room : n * 24 < memoryEnd)
      (found : t.links.find? (endOutside n) = some link) :
      BuildEnd t n (.error (.topology (.linkOutside link.src link.dst n)), t)
  | noRoomForLoads (nodes : t.NodesInside n) (room : n * 24 < memoryEnd)
      (links : t.LinksInside n) (beyond : memoryEnd ≤ n * n * 8) :
      BuildEnd t n (.error (.breakdown .beyondMemory), { t.builtOver n with loads := t.loads })
  | built (nodes : t.NodesInside n) (room : n * 24 < memoryEnd) (links : t.LinksInside n)
      (roomForLoads : n * n * 8 < memoryEnd) : BuildEnd t n (.ok (), t.builtOver n)

/-- A build comes to one of its ends. -/
theorem buildEnd_rebuild (t : Topology α) (n : Nat) : BuildEnd t n (t.rebuild n) := by
  rw [rebuild, buildInPlace, Failing.run_bind, Failing.run_get]
  dsimp only
  cases hnode : t.nodes.find? (n ≤ ·.id.index) with
  | some node => exact .nodeOutside hnode
  | none =>
      have hnodes : t.NodesInside n := by
        simpa [NodesInside] using List.find?_eq_none.mp hnode
      simp only [Failing.run_bind, Failing.run_liftM, Failing.run_modify, reserve,
        enterLinks_replicate]
      by_cases hroom : memoryEnd ≤ n * 24
      · rw [if_pos hroom]
        exact .noRoomForLists hnodes hroom
      rw [if_neg hroom]
      rw [Nat.not_le] at hroom
      cases hlink : t.links.find? (endOutside n) with
      | some link => exact .linkOutside hnodes hroom hlink
      | none =>
          have hlinks : t.LinksInside n := by
            simpa [endOutside, LinksInside] using List.find?_eq_none.mp hlink
          by_cases hloads : memoryEnd ≤ n * n * 8
          · rw [if_pos hloads]
            exact .noRoomForLoads hnodes hroom hlinks hloads
          · rw [if_neg hloads]
            exact .built hnodes hroom hlinks (Nat.not_le.mp hloads)

/-- Building in place answers what building answers, and leaves what that gives. -/
theorem buildOver_eq (t : Topology α) (n : Nat) :
    t.buildOver n = (t.rebuild n).1.map fun _ => (t.rebuild n).2 := by
  have hall (hnodes : t.NodesInside n) : t.nodes.all (·.id.index < n) = true := by
    simpa [NodesInside] using hnodes
  have hnone (hnodes : t.NodesInside n) : t.nodes.find? (n ≤ ·.id.index) = none := by
    simpa [NodesInside] using hnodes
  rw [buildOver]
  generalize hend : t.rebuild n = answer
  cases hend ▸ buildEnd_rebuild t n with
  | nodeOutside found =>
      have hnot : ¬ t.nodes.all (·.id.index < n) = true := by
        simpa [NodesInside] using not_nodesInside found
      rw [if_neg hnot, build, found]
      rfl
  | noRoomForLists nodes beyond =>
      rw [if_pos (hall nodes), reserve, if_pos beyond]
      rfl
  | @linkOutside link nodes room found =>
      have hfound : t.links.find? (fun link => n ≤ link.src.index || n ≤ link.dst.index) =
          some link := found
      rw [if_pos (hall nodes), reserve, if_neg (Nat.not_le.mpr room), build, hnone nodes]
      dsimp only
      rw [hfound]
      rfl
  | noRoomForLoads nodes room links beyond =>
      rw [if_pos (hall nodes), reserve, if_neg (Nat.not_le.mpr room),
        build_eq_ok_iff.mpr ⟨nodes, links, rfl⟩, reserve, if_pos beyond]
      rfl
  | built nodes room links roomForLoads =>
      rw [if_pos (hall nodes), reserve, if_neg (Nat.not_le.mpr room),
        build_eq_ok_iff.mpr ⟨nodes, links, rfl⟩, reserve, if_neg (Nat.not_le.mpr roomForLoads)]
      rfl

/-- What a successful build leaves of a topology: lists of neighbours that agree with the links,
nodes in order, and nothing booked. -/
structure BuiltFrom (t built : Topology α) (n : Nat) : Prop where
  size : built.size = n
  links : built.links = t.links
  nodes_sorted : built.nodes.Pairwise (·.id.index ≤ ·.id.index)
  nodes_stable : ∀ k, built.nodes.filter (·.id.index = k) = t.nodes.filter (·.id.index = k)
  count_neighbours : ∀ u v, u ≠ v → (built.neighbours u).count v = t.links.countP (·.joins (u, v))
  count_symm : ∀ u v, (built.neighbours u).count v = (built.neighbours v).count u
  mem_neighbours : ∀ u v, v ∈ built.neighbours u ↔ (built.link? (u, v)).isSome
  unbooked : ∀ e, built.load e = 0

theorem builtFrom_of_build {t built : Topology α} {n : Nat} (h : t.build n = .ok built) :
    BuiltFrom t built n := by
  have hwired := wired_of_build h
  obtain ⟨-, -, rfl⟩ := build_eq_ok_iff.mp h
  refine ⟨rfl, rfl, sortByKey_sorted _ _, fun k => filter_sortByKey _ k _, fun u v huv => ?_,
    fun u v => ?_, fun u v => ?_, fun e => LoadTable.get_zero n e⟩
  · rw [hwired.neighbours_eq]
    exact count_farEnds huv t.links
  · rw [hwired.neighbours_eq, hwired.neighbours_eq]
    exact count_farEnds_comm t.links u v
  · rw [hwired.mem_neighbours, link?, List.find?_isSome]
    rfl

theorem rebuild_eq_ok_iff {t : Topology α} {n : Nat} :
    (t.rebuild n).1 = .ok () ↔
      t.NodesInside n ∧ t.LinksInside n ∧ n * 24 < memoryEnd ∧ n * n * 8 < memoryEnd := by
  generalize hend : t.rebuild n = answer
  cases hend ▸ buildEnd_rebuild t n with
  | nodeOutside found => simpa using fun hnodes _ => absurd hnodes (not_nodesInside found)
  | noRoomForLists nodes beyond => simp; omega
  | linkOutside nodes room found => simpa using fun _ hlinks => absurd hlinks (not_linksInside found)
  | noRoomForLoads nodes room links beyond => simp; omega
  | built nodes room links roomForLoads => simp [nodes, links, room, roomForLoads]

theorem rebuild_refuses_iff {t : Topology α} {n : Nat} :
    (∃ fault, (t.rebuild n).1 = .error (.topology fault)) ↔
      ¬ t.NodesInside n ∨ (n * 24 < memoryEnd ∧ ¬ t.LinksInside n) := by
  generalize hend : t.rebuild n = answer
  cases hend ▸ buildEnd_rebuild t n with
  | nodeOutside found => simp [not_nodesInside found]
  | noRoomForLists nodes beyond => simp [nodes]; omega
  | linkOutside nodes room found => simp [room, not_linksInside found]
  | noRoomForLoads nodes room links beyond => simp [nodes, links]
  | built nodes room links roomForLoads => simp [nodes, links]

/-- A build that succeeds leaves the built topology. -/
theorem builtFrom_of_rebuild {t : Topology α} {n : Nat} (h : (t.rebuild n).1 = .ok ()) :
    BuiltFrom t (t.rebuild n).2 n := by
  obtain ⟨hnodes, hlinks, -⟩ := rebuild_eq_ok_iff.mp h
  generalize hend : t.rebuild n = answer at h ⊢
  cases hend ▸ buildEnd_rebuild t n with
  | built nodes room links roomForLoads =>
      exact builtFrom_of_build (build_eq_ok_iff.mpr ⟨hnodes, hlinks, rfl⟩)
  | _ => cases h

/-- A build that refuses leaves the topology as it was. -/
theorem rebuild_of_refused {t : Topology α} {n : Nat} {fault : TopologyFault}
    (h : (t.rebuild n).1 = .error (.topology fault)) : (t.rebuild n).2 = t := by
  generalize hend : t.rebuild n = answer at h ⊢
  cases hend ▸ buildEnd_rebuild t n with
  | nodeOutside found => rfl
  | linkOutside nodes room found => rfl
  | _ => cases h

/-! ### Before it is used -/

/-- What is done to a topology before it is used. -/
inductive Step (α : Type)
  | node (node : Node)
  | link (link : Link α)
  | build (n : Nat)

/-- The topology that a step leaves, also where the step fails. -/
def perform (t : Topology α) : Step α → Topology α
  | .node node => t.addNode node
  | .link link => t.addLink link
  | .build n => (t.rebuild n).2

/-- The topology after some steps. -/
def assembled (unit : α) (steps : List (Step α)) : Topology α := steps.foldl perform (.empty unit)

/-- The lists of neighbours are those of the links there were at some time, and nothing is
booked. -/
structure Unused (t : Topology α) : Prop where
  neighbours_eq : ∃ links, links <+: t.links ∧ ∀ u, t.neighbours u = farEnds links u
  unbooked : ∀ e, t.load e = 0

theorem unused_empty (unit : α) : (empty unit).Unused where
  neighbours_eq := ⟨[], List.nil_prefix, fun _ => by simp [neighbours, empty, farEnds]⟩
  unbooked e := LoadTable.get_zero 0 e

theorem unused_builtOver {t : Topology α} {n : Nat} (hnodes : t.NodesInside n)
    (hlinks : t.LinksInside n) : (t.builtOver n).Unused where
  neighbours_eq := by
    have hbuilt : t.build n = .ok (t.builtOver n) := build_eq_ok_iff.mpr ⟨hnodes, hlinks, rfl⟩
    exact ⟨t.links, List.prefix_rfl, (wired_of_build hbuilt).neighbours_eq⟩
  unbooked e := LoadTable.get_zero n e

theorem Unused.perform {t : Topology α} (h : t.Unused) (step : Step α) : (t.perform step).Unused := by
  obtain ⟨links, hlinks, hlists⟩ := h.neighbours_eq
  cases step with
  | node node => exact ⟨h.neighbours_eq, h.unbooked⟩
  | link link =>
      exact ⟨⟨links, hlinks.trans (List.prefix_append _ _), hlists⟩, h.unbooked⟩
  | build n =>
      rw [Topology.perform]
      generalize hend : t.rebuild n = answer
      cases hend ▸ buildEnd_rebuild t n with
      | nodeOutside found => exact h
      | noRoomForLists nodes beyond => exact h
      | linkOutside nodes room found => exact h
      | noRoomForLoads nodes room links beyond =>
          exact ⟨(unused_builtOver nodes links).neighbours_eq, h.unbooked⟩
      | built nodes room links roomForLoads => exact unused_builtOver nodes links

/-- Whatever is done before it is used, it stays so. -/
theorem unused_assembled (unit : α) (steps : List (Step α)) : (assembled unit steps).Unused := by
  have hsteps : ∀ t : Topology α, t.Unused → (steps.foldl Topology.perform t).Unused := by
    induction steps with
    | nil => exact fun t h => h
    | cons step steps ih => exact fun t h => ih _ (h.perform step)
  exact hsteps _ (unused_empty unit)

/-- Two nodes are neighbours of each other equally often, and not more often than there are links
between them. -/
theorem Unused.count_neighbours {t : Topology α} (h : t.Unused) {u v : NodeId} (huv : u ≠ v) :
    (t.neighbours u).count v = (t.neighbours v).count u ∧
      (t.neighbours u).count v ≤ t.links.countP (·.joins (u, v)) := by
  obtain ⟨links, hlinks, hlists⟩ := h.neighbours_eq
  rw [hlists, hlists]
  refine ⟨count_farEnds_comm links u v, ?_⟩
  rw [count_farEnds huv]
  exact hlinks.sublist.countP_le

/-- Whatever was done before, also between builds, neighbours are so mutually and have links between
them, and nothing is booked. A build that succeeds leaves lists of neighbours that agree with the
links, nodes in order, and nothing booked. It refuses where a node lies outside, or where there is
room for the lists and an end of a link lies outside; and then it leaves the topology as it was. -/
theorem build_assembled (unit : α) (steps : List (Step α)) (n : Nat) :
    let t := assembled unit steps
    let after := t.rebuild n
    (∀ u v, u ≠ v → (t.neighbours u).count v = (t.neighbours v).count u ∧
      (t.neighbours u).count v ≤ t.links.countP (·.joins (u, v))) ∧
      (∀ e, t.load e = 0) ∧
      t.buildOver n = after.1.map (fun _ => after.2) ∧
      (after.1 = .ok () → BuiltFrom t after.2 n) ∧
      (after.1 = .ok () ↔
        t.NodesInside n ∧ t.LinksInside n ∧ n * 24 < memoryEnd ∧ n * n * 8 < memoryEnd) ∧
      ((∃ fault, after.1 = .error (.topology fault)) ↔
        ¬ t.NodesInside n ∨ (n * 24 < memoryEnd ∧ ¬ t.LinksInside n)) ∧
      ∀ fault, after.1 = .error (.topology fault) → after.2 = t := by
  intro t after
  have hunused := unused_assembled unit steps
  exact ⟨fun _ _ => hunused.count_neighbours, hunused.unbooked, buildOver_eq t n,
    builtFrom_of_rebuild, rebuild_eq_ok_iff, rebuild_refuses_iff, fun _ => rebuild_of_refused⟩

/-- Nodes out of order, two links between 0 and 1 and one from 1 to itself; and a build that is
refused, since node 2 is outside of it. -/
def doubled : List (Step Rat) :=
  [.node { id := ⟨2⟩, kind := .accessPoint }, .node { id := ⟨0⟩, kind := .cacheServer },
    .link ⟨⟨0⟩, ⟨1⟩, 10, 0, 0, 0⟩, .link ⟨⟨1⟩, ⟨0⟩, 10, 0, 0, 0⟩, .link ⟨⟨1⟩, ⟨1⟩, 10, 0, 0, 0⟩,
    .build 2]

/-- A build over enough nodes succeeds after the one that was refused. -/
theorem build_doubled :
    ((assembled 1 doubled).rebuild 3).1 = .ok () ∧
      (((assembled 1 doubled).rebuild 3).2.neighbours ⟨0⟩).count ⟨1⟩ = 2 := by
  obtain ⟨-, -, -, hleaves, hsucceeds, -, -⟩ := build_assembled 1 doubled 3
  have hdone : ((assembled 1 doubled).rebuild 3).1 = .ok () :=
    hsucceeds.mpr ⟨by decide, by decide, by decide, by decide⟩
  refine ⟨hdone, ?_⟩
  rw [(hleaves hdone).count_neighbours ⟨0⟩ ⟨1⟩ (by decide)]
  decide

/-- Where there is no room for the lists, an end of a link that lies outside is not refused. -/
theorem outside_not_refused :
    let n := Nat.pow 2 60
    let t := assembled (1 : Rat) [.link ⟨⟨0⟩, ⟨n⟩, 1, 0, 0, 0⟩]
    ¬ t.LinksInside n ∧ ¬ ∃ fault, (t.rebuild n).1 = .error (.topology fault) := by
  intro n t
  have hnodes : t.NodesInside n := fun node hnode => absurd hnode List.not_mem_nil
  have hlinks : ¬ t.LinksInside n := fun hinside =>
    absurd (hinside _ (List.mem_singleton.mpr rfl)).2 (Nat.lt_irrefl _)
  refine ⟨hlinks, fun hrefused => ?_⟩
  rcases rebuild_refuses_iff.mp hrefused with houtside | ⟨hroom, -⟩
  · exact houtside hnodes
  · exact absurd hroom (by decide)

end StreamPlacement.Topology
