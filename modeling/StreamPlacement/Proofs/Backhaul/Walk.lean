import StreamPlacement.Backhaul.ShortestRoute

/-!
Walks along the links of a topology.

Links are undirected, so a walk may take a link either way. A topology is *wired* when its lists of
neighbours are those of its links and no link leaves the table of nodes; every successful build
leaves it so, and booking demand on it changes nothing about that.
-/

namespace StreamPlacement

variable {α : Type}

theorem Id.index_injective {entity : Entity} : Function.Injective (@Id.index entity) := by
  rintro ⟨i⟩ ⟨j⟩ h
  exact congrArg Id.mk h

@[simp] theorem Link.joins_iff (link : Link α) (u v : NodeId) :
    link.joins (u, v) = true ↔
      (link.src = u ∧ link.dst = v) ∨ (link.src = v ∧ link.dst = u) := by
  simp [Link.joins, Link.edge]

/-- A link is found from either end. -/
theorem Link.joins_swap (link : Link α) (e : Edge) : link.joins e.swap = link.joins e := by
  rw [joins, joins, Prod.swap_swap, Bool.or_comm]

namespace Topology

theorem link?_swap (t : Topology α) (e : Edge) : t.link? e.swap = t.link? e := by
  simp only [link?, Link.joins_swap]

/-! ### Walks -/

/-- Some link joins the two nodes, in either orientation. -/
def Joined (t : Topology α) (u v : NodeId) : Prop := ∃ link ∈ t.links, link.joins (u, v)

/-- The sequences of hops that lead from one node to another along links. -/
inductive Walk (t : Topology α) : NodeId → NodeId → List NodeId → Prop
  | stop (u : NodeId) : Walk t u u [u]
  | hop {u v dest : NodeId} {hops : List NodeId} (joined : t.Joined u v)
      (rest : Walk t v dest hops) : Walk t u dest (u :: hops)

/-- Some walk leads from one node to the other. -/
def Connected (t : Topology α) (source dest : NodeId) : Prop := ∃ hops, t.Walk source dest hops

theorem Joined.symm {t : Topology α} {u v : NodeId} (h : t.Joined u v) : t.Joined v u := by
  obtain ⟨link, hmem, hjoins⟩ := h
  exact ⟨link, hmem, (link.joins_swap (u, v)).trans hjoins⟩

theorem Walk.cons_eq {t : Topology α} {source dest : NodeId} {hops : List NodeId}
    (h : t.Walk source dest hops) : ∃ rest, hops = source :: rest := by
  cases h with
  | stop => exact ⟨[], rfl⟩
  | hop _ _ => exact ⟨_, rfl⟩

theorem Walk.length_pos {t : Topology α} {source dest : NodeId} {hops : List NodeId}
    (h : t.Walk source dest hops) : 0 < hops.length := by
  obtain ⟨rest, rfl⟩ := h.cons_eq
  exact Nat.succ_pos _

theorem Walk.getLast? {t : Topology α} {source dest : NodeId} {hops : List NodeId}
    (h : t.Walk source dest hops) : hops.getLast? = some dest := by
  induction h with
  | stop => rfl
  | hop _ rest ih =>
      obtain ⟨tail, rfl⟩ := rest.cons_eq
      simpa using ih

theorem Walk.eq_of_no_edge {t : Topology α} {source dest : NodeId} {hops : List NodeId}
    (h : t.Walk source dest hops) (hfirst : (Route.ofHops hops).currentEdge? = none) :
    source = dest := by
  cases h with
  | stop => rfl
  | hop _ rest =>
      obtain ⟨tail, rfl⟩ := rest.cons_eq
      cases hfirst

theorem Walk.mono {t t' : Topology α} (hjoined : ∀ u v, t.Joined u v → t'.Joined u v)
    {source dest : NodeId} {hops : List NodeId} (h : t.Walk source dest hops) :
    t'.Walk source dest hops := by
  induction h with
  | stop u => exact .stop u
  | hop joined _ ih => exact .hop (hjoined _ _ joined) ih

/-- A walk, said of its hops alone: where it starts, where it ends, and that consecutive hops are
joined. -/
theorem walk_iff {t : Topology α} {source dest : NodeId} {hops : List NodeId} :
    t.Walk source dest hops ↔
      hops.head? = some source ∧ hops.getLast? = some dest ∧
        ∀ e ∈ edgesOf hops, t.Joined e.1 e.2 := by
  constructor
  · intro h
    refine ⟨?_, h.getLast?, ?_⟩
    · obtain ⟨rest, rfl⟩ := h.cons_eq
      rfl
    · induction h with
      | stop => simp [edgesOf]
      | hop joined rest ih =>
          obtain ⟨tail, rfl⟩ := rest.cons_eq
          simp only [edgesOf, List.tail_cons, List.zip_cons_cons, List.mem_cons] at ih ⊢
          rintro e (rfl | he)
          · exact joined
          · exact ih e he
  · rintro ⟨hfirst, hlast, hjoined⟩
    induction hops generalizing source with
    | nil => cases hfirst
    | cons u rest ih =>
        obtain rfl : u = source := by simpa using hfirst
        cases rest with
        | nil =>
            obtain rfl : u = dest := by simpa using hlast
            exact .stop u
        | cons v tail =>
            simp only [edgesOf, List.tail_cons, List.zip_cons_cons, List.mem_cons] at hjoined ih
            exact .hop (hjoined (u, v) (.inl rfl))
              (ih rfl (by simpa using hlast) fun e he => hjoined e (.inr he))

/-- From any hop of a walk on, the rest of it is a walk. -/
theorem Walk.suffix {t : Topology α} {source dest u : NodeId} {before rest : List NodeId}
    (h : t.Walk source dest (before ++ u :: rest)) : t.Walk u dest (u :: rest) := by
  induction before generalizing source with
  | nil =>
      obtain ⟨_, heq⟩ := h.cons_eq
      obtain ⟨rfl, -⟩ := List.cons.inj heq
      exact h
  | cons w before ih =>
      cases hrest : before ++ u :: rest with
      | nil => simp at hrest
      | cons x xs =>
          rw [List.cons_append, hrest] at h
          cases h with
          | hop _ tail => exact ih (hrest ▸ tail)

/-- Up to any hop of a walk, what has been walked is a walk. -/
theorem Walk.upTo {t : Topology α} {source dest u : NodeId} {before rest : List NodeId}
    (h : t.Walk source dest (before ++ u :: rest)) : t.Walk source u (before ++ [u]) := by
  induction before generalizing source with
  | nil =>
      obtain ⟨_, heq⟩ := h.cons_eq
      obtain ⟨rfl, -⟩ := List.cons.inj heq
      exact .stop u
  | cons w before ih =>
      cases hrest : before ++ u :: rest with
      | nil => simp at hrest
      | cons x xs =>
          rw [List.cons_append, hrest] at h
          cases h with
          | hop joined tail => exact .hop joined (ih (hrest ▸ tail))

theorem Walk.append {t : Topology α} {source u dest : NodeId} {hops rest : List NodeId}
    (h : t.Walk source u hops) (h' : t.Walk u dest (u :: rest)) :
    t.Walk source dest (hops ++ rest) := by
  induction h with
  | stop => exact h'
  | hop joined _ ih => exact .hop joined (ih h')

theorem Walk.reverse {t : Topology α} {source dest : NodeId} {hops : List NodeId}
    (h : t.Walk source dest hops) : t.Walk dest source hops.reverse := by
  induction h with
  | stop u => exact .stop u
  | hop joined _ ih =>
      rw [List.reverse_cons]
      exact ih.append (.hop joined.symm (.stop _))

/-- From any hop of a walk on, another walk may be taken instead. -/
theorem Walk.splice {t : Topology α} {source dest u : NodeId} {before rest other : List NodeId}
    (h : t.Walk source dest (before ++ u :: rest)) (hother : t.Walk u dest other) :
    t.Walk source dest (before ++ other) := by
  obtain ⟨tail, rfl⟩ := hother.cons_eq
  rw [List.append_cons]
  exact h.upTo.append hother

/-! ### Wired topologies -/

/-- The lists of neighbours are those of the links, and no link leaves the table of nodes. -/
structure Wired (t : Topology α) : Prop where
  neighbours_eq : ∀ u, t.neighbours u = farEnds t.links u
  inside : ∀ link ∈ t.links, link.src.index < t.size ∧ link.dst.index < t.size

theorem mem_farEnds {links : List (Link α)} {u v : NodeId} :
    v ∈ farEnds links u ↔ ∃ link ∈ links, link.joins (u, v) := by
  simp only [farEnds, List.mem_flatMap, Link.joins_iff]
  refine exists_congr fun link => and_congr_right fun _ => ?_
  by_cases hsrc : link.src = u <;> by_cases hdst : link.dst = u <;>
    simp [hsrc, hdst, eq_comm]

theorem Wired.mem_neighbours {t : Topology α} (h : t.Wired) {u v : NodeId} :
    v ∈ t.neighbours u ↔ t.Joined u v := by
  rw [h.neighbours_eq u, mem_farEnds, Joined]

theorem Wired.joined_inside {t : Topology α} (h : t.Wired) {u v : NodeId} (hjoined : t.Joined u v) :
    u.index < t.size ∧ v.index < t.size := by
  obtain ⟨link, hmem, hjoins⟩ := hjoined
  have hends := h.inside link hmem
  rcases (Link.joins_iff link u v).mp hjoins with ⟨rfl, rfl⟩ | ⟨rfl, rfl⟩
  · exact hends
  · exact hends.symm

/-- No hop of a walk between nodes of the table lies outside of it. -/
theorem Wired.walk_inside {t : Topology α} (h : t.Wired) {source dest : NodeId}
    {hops : List NodeId} (hwalk : t.Walk source dest hops) (hdest : dest.index < t.size) :
    ∀ u ∈ hops, u.index < t.size := by
  induction hwalk with
  | stop => simpa using hdest
  | hop joined _ ih =>
      intro u hu
      rcases List.mem_cons.mp hu with rfl | hu
      · exact (h.joined_inside joined).1
      · exact ih hdest u hu

section Building

variable [Quantity α]

/-- What a build leaves where it succeeds. -/
def builtOver (t : Topology α) (n : Nat) : Topology α :=
  { t with
    nodes := sortByKey (·.id.index) t.nodes
    adjacency := (Array.range n).map fun i => farEnds t.links ⟨i⟩
    loads := .zero n }

/-- A build succeeds where no node and no link end lies outside. -/
theorem build_eq_ok_iff {t built : Topology α} {n : Nat} :
    t.build n = .ok built ↔
      (∀ node ∈ t.nodes, node.id.index < n) ∧
        (∀ link ∈ t.links, link.src.index < n ∧ link.dst.index < n) ∧ built = t.builtOver n := by
  unfold build
  cases hnode : t.nodes.find? (n ≤ ·.id.index) with
  | some node =>
      have hout : n ≤ node.id.index := by simpa using List.find?_some hnode
      constructor
      · intro h
        cases h
      · rintro ⟨hnodes, -⟩
        have := hnodes node (List.mem_of_find?_eq_some hnode)
        omega
  | none =>
      have hnodes : ∀ node ∈ t.nodes, node.id.index < n := by
        simpa using List.find?_eq_none.mp hnode
      cases hlink : t.links.find? (fun link => n ≤ link.src.index || n ≤ link.dst.index) with
      | some link =>
          have hout : n ≤ link.src.index ∨ n ≤ link.dst.index := by
            simpa using List.find?_some hlink
          constructor
          · intro h
            cases h
          · rintro ⟨-, hlinks, -⟩
            have := hlinks link (List.mem_of_find?_eq_some hlink)
            omega
      | none =>
          have hlinks : ∀ link ∈ t.links, link.src.index < n ∧ link.dst.index < n := by
            simpa using List.find?_eq_none.mp hlink
          constructor
          · intro h
            exact ⟨hnodes, hlinks, (Except.ok.inj h).symm⟩
          · rintro ⟨-, -, rfl⟩
            rfl

theorem size_of_build {t built : Topology α} {n : Nat} (h : t.build n = .ok built) :
    built.size = n := by
  obtain ⟨-, -, rfl⟩ := build_eq_ok_iff.mp h
  rfl

theorem wired_of_build {t built : Topology α} {n : Nat} (h : t.build n = .ok built) :
    built.Wired := by
  obtain ⟨-, hinside, rfl⟩ := build_eq_ok_iff.mp h
  refine ⟨fun u => ?_, hinside⟩
  by_cases hu : u.index < n
  · simp [neighbours, builtOver, hu]
  · -- A node outside the table has no list, and by the check of the build no link either.
    have hnone : farEnds t.links u = [] := by
      rw [List.eq_nil_iff_forall_not_mem]
      intro v hv
      obtain ⟨link, hmem, hjoins⟩ := mem_farEnds.mp hv
      have hends := hinside link hmem
      rcases (Link.joins_iff link u v).mp hjoins with ⟨rfl, -⟩ | ⟨-, rfl⟩
      · exact hu hends.1
      · exact hu hends.2
    simp [neighbours, builtOver, hu, hnone]

end Building

end Topology

end StreamPlacement
