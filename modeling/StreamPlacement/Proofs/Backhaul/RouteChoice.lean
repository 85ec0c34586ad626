import Mathlib.Data.List.Forall2
import StreamPlacement.Proofs.Backhaul.Search

/-!
Which route is chosen, and what it does not depend on.

The route is determined by which pairs of nodes are joined: neither the order in which the links
were declared, nor their orientation, nor how often a link is repeated changes it.
-/

namespace StreamPlacement

variable {α : Type}

/-- The same link, declared the other way round. -/
def Link.reversed (link : Link α) : Link α := { link with src := link.dst, dst := link.src }

/-- The same links in another order, some of them declared the other way round. -/
def Rearranged (links links' : List (Link α)) : Prop :=
  ∃ turned, List.Forall₂ (fun link link' => link' = link ∨ link' = link.reversed) links turned ∧
    turned.Perm links'

theorem joins_reversed (link : Link α) (u v : NodeId) :
    link.reversed.joins (u, v) = link.joins (u, v) := by
  rw [Bool.eq_iff_iff, Link.joins_iff, Link.joins_iff]
  simp only [Link.reversed]
  constructor
  · rintro (⟨hu, hv⟩ | ⟨hu, hv⟩)
    · exact .inr ⟨hv, hu⟩
    · exact .inl ⟨hv, hu⟩
  · rintro (⟨hu, hv⟩ | ⟨hu, hv⟩)
    · exact .inr ⟨hv, hu⟩
    · exact .inl ⟨hv, hu⟩

theorem Rearranged.exists_joins {links links' : List (Link α)} (h : Rearranged links links')
    (u v : NodeId) :
    (∃ link ∈ links, link.joins (u, v)) ↔ ∃ link ∈ links', link.joins (u, v) := by
  obtain ⟨turned, hturned, hperm⟩ := h
  have hsame : (∃ link ∈ links, link.joins (u, v)) ↔ ∃ link ∈ turned, link.joins (u, v) := by
    clear hperm
    induction hturned with
    | nil => rfl
    | cons hlink _ ih =>
        simp only [List.exists_mem_cons_iff, ih]
        rcases hlink with rfl | rfl
        · rfl
        · rw [joins_reversed]
  rw [hsame]
  exact exists_congr fun link => and_congr_left fun _ => hperm.mem_iff

theorem Rearranged.inside {links links' : List (Link α)} (h : Rearranged links links') {n : Nat}
    (hinside : ∀ link ∈ links, link.src.index < n ∧ link.dst.index < n) :
    ∀ link ∈ links', link.src.index < n ∧ link.dst.index < n := by
  obtain ⟨turned, hturned, hperm⟩ := h
  have hsame : ∀ link ∈ turned, link.src.index < n ∧ link.dst.index < n := by
    clear hperm
    induction hturned with
    | nil => simp
    | cons hlink _ ih =>
        simp only [List.forall_mem_cons] at hinside ⊢
        refine ⟨?_, ih hinside.2⟩
        rcases hlink with rfl | rfl
        · exact hinside.1
        · exact hinside.1.symm
  exact fun link hmem => hsame link (hperm.mem_iff.mpr hmem)

namespace Topology

variable {t t' : Topology α} {source dest : NodeId}

theorem Best.congr (hjoined : ∀ u v, t.Joined u v ↔ t'.Joined u v) {hops : List NodeId}
    (h : t.Best source dest hops) : t'.Best source dest hops := by
  have hback : ∀ {other}, t'.Walk source dest other → t.Walk source dest other :=
    fun hother => hother.mono fun u v => (hjoined u v).mpr
  exact ⟨h.walk.mono fun u v => (hjoined u v).mp, fun other hother => h.fewest other (hback hother),
    fun other hother => h.first other (hback hother)⟩

/-- Topologies over the same nodes that join the same pairs have the same routes. -/
theorem route_congr (hwired : t.Wired) (hwired' : t'.Wired) (hsize : t.size = t'.size)
    (hjoined : ∀ u v, t.Joined u v ↔ t'.Joined u v) (source dest : NodeId) :
    t.route source dest = t'.route source dest := by
  by_cases hinside : source.index < t.size ∧ dest.index < t.size
  · obtain ⟨hsource, hdest⟩ := hinside
    rcases hwired.route_cases hsource hdest with ⟨hops, hbest, hroute⟩ | ⟨hnone, hroute⟩
    · rw [hroute, eq_comm, hwired'.route_eq_ok_iff]
      exact ⟨hsize ▸ hsource, hsize ▸ hdest, hbest.congr hjoined, rfl⟩
    · rcases hwired'.route_cases (hsize ▸ hsource) (hsize ▸ hdest) with ⟨hops, hbest, -⟩ | ⟨-, hroute'⟩
      · exact absurd ⟨hops, (hbest.congr fun u v => (hjoined u v).symm).walk⟩ hnone
      · rw [hroute, hroute']
  · -- Outside of the table the answer is read off the size alone.
    have hbuilt : t.isBuilt = t'.isBuilt := by rw [isBuilt, isBuilt, hsize]
    have hcontains : ∀ u, t.contains u = t'.contains u := fun u => by rw [contains, contains, hsize]
    unfold route
    rw [hbuilt, hcontains, hcontains]
    split
    · rfl
    · split
      · rfl
      · split
        · rfl
        · next hsource hdest =>
            simp only [Bool.not_eq_true', Bool.not_eq_false, ← hcontains] at hsource hdest
            exact absurd ⟨contains_iff.mp hsource, contains_iff.mp hdest⟩ hinside

variable [Quantity α]

/-- In every built topology the route between two nodes of the table exists just where they are
connected, and it is the best walk between them. The same links in another order or orientation can
be built over the same nodes, and give the same routes. -/
theorem route_of_build {built : Topology α} {n : Nat} (hbuild : t.build n = .ok built) :
    (∀ source dest : NodeId, source.index < n → dest.index < n →
      ((∃ r, built.route source dest = .ok r) ↔ built.Connected source dest) ∧
      (¬ built.Connected source dest →
        built.route source dest = .error (.noRoute source dest)) ∧
      ∀ r, built.route source dest = .ok r →
        r.hops.head? = some source ∧ r.hops.getLast? = some dest ∧
          (∀ e ∈ edgesOf r.hops, ∃ link ∈ t.links, link.joins e) ∧
          r.hops.Nodup ∧ r.cursor = 0 ∧ built.Best source dest r.hops) ∧
    ∀ links, Rearranged t.links links →
      ∃ built', { t with links }.build n = .ok built' ∧
        ∀ source dest, built'.route source dest = built.route source dest := by
  have hwired := wired_of_build hbuild
  have hsize := size_of_build hbuild
  obtain ⟨hnodes, hlinks, rfl⟩ := build_eq_ok_iff.mp hbuild
  constructor
  · intro source dest hsource hdest
    rw [← hsize] at hsource hdest
    have hcases := hwired.route_cases hsource hdest
    refine ⟨⟨?_, ?_⟩, ?_, ?_⟩
    · rintro ⟨r, hroute⟩
      obtain ⟨-, -, hbest, -⟩ := hwired.route_eq_ok_iff.mp hroute
      exact ⟨_, hbest.walk⟩
    · intro hconnected
      rcases hcases with ⟨_, -, hroute⟩ | ⟨hnone, -⟩
      · exact ⟨_, hroute⟩
      · exact absurd hconnected hnone
    · intro hnone
      rcases hcases with ⟨hops, hbest, -⟩ | ⟨-, hroute⟩
      · exact absurd ⟨hops, hbest.walk⟩ hnone
      · exact hroute
    · intro r hroute
      obtain ⟨-, -, hbest, hcursor⟩ := hwired.route_eq_ok_iff.mp hroute
      obtain ⟨hfirst, hlast, hjoined⟩ := walk_iff.mp hbest.walk
      exact ⟨hfirst, hlast, hjoined, hbest.nodup, hcursor, hbest⟩
  · intro links hrearranged
    have hbuild' : { t with links }.build n = .ok ({ t with links }.builtOver n) :=
      build_eq_ok_iff.mpr ⟨hnodes, hrearranged.inside hlinks, rfl⟩
    refine ⟨_, hbuild', fun source dest => ?_⟩
    exact route_congr (wired_of_build hbuild') hwired rfl
      (fun u v => (hrearranged.exists_joins u v).symm) source dest

/-- A ring of four nodes with a tail, a link declared twice and a node that nothing joins. -/
def ring : Topology Rat :=
  { Topology.empty 1 with
    links := [link 0 1, link 1 2, link 2 3, link 3 0, link 3 4, link 2 1] }
where
  link (src dst : Nat) : Link Rat := ⟨⟨src⟩, ⟨dst⟩, 10, 0, 0, 0⟩

/-- Of the two ways around the ring the one over the lower node is taken, also where the links are
declared backwards, and the lone node is out of reach. -/
theorem route_in_ring :
    ∃ built, ring.build 6 = .ok built ∧
      built.Best ⟨0⟩ ⟨2⟩ [⟨0⟩, ⟨1⟩, ⟨2⟩] ∧ ¬ built.Connected ⟨0⟩ ⟨5⟩ ∧
      ∃ built', { ring with links := (ring.links.map Link.reversed).reverse }.build 6 = .ok built' ∧
        built'.route ⟨0⟩ ⟨2⟩ = .ok (.ofHops [⟨0⟩, ⟨1⟩, ⟨2⟩]) := by
  have hbuild : ring.build 6 = .ok (ring.builtOver 6) := rfl
  obtain ⟨hroutes, hlinks⟩ := route_of_build hbuild
  have hroute : (ring.builtOver 6).route ⟨0⟩ ⟨2⟩ = .ok (.ofHops [⟨0⟩, ⟨1⟩, ⟨2⟩]) := by decide +kernel
  have hturned : List.Forall₂ (fun link link' => link' = link ∨ link' = link.reversed) ring.links
      (ring.links.map Link.reversed) := by
    simp [ring]
  obtain ⟨built', hbuild', hsame⟩ := hlinks _ ⟨_, hturned, List.reverse_perm _ |>.symm⟩
  obtain ⟨-, -, hbest⟩ := hroutes ⟨0⟩ ⟨2⟩ (by decide) (by decide)
  obtain ⟨hconnected, -, -⟩ := hroutes ⟨0⟩ ⟨5⟩ (by decide) (by decide)
  refine ⟨_, hbuild, (hbest _ hroute).2.2.2.2.2, ?_, built', hbuild', ?_⟩
  · rw [← hconnected]
    rintro ⟨r, hr⟩
    have hnone : (ring.builtOver 6).route ⟨0⟩ ⟨5⟩ = .error (.noRoute ⟨0⟩ ⟨5⟩) := by
      decide +kernel
    rw [hnone] at hr
    cases hr
  · rw [hsame, hroute]

end Topology

end StreamPlacement
