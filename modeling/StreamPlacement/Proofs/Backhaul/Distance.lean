import Mathlib.Data.List.Nodup
import Mathlib.Data.List.Perm.Subperm
import Mathlib.Data.Nat.Find
import StreamPlacement.Proofs.Backhaul.Walk

/-!
Distances in hops.

A node has a distance just where some walk leads from it to the destination, and the distance is
told by its neighbours: one of them is one hop nearer, and none is nearer than that.
-/

namespace StreamPlacement.Topology

variable {α : Type} {t : Topology α} {source dest u v : NodeId} {hops : List NodeId}

/-- A walk leads from `u` to `dest` in `count` hops, and none in fewer. -/
structure Distance (t : Topology α) (dest u : NodeId) (count : Nat) : Prop where
  attained : ∃ hops, t.Walk u dest hops ∧ hops.length = count + 1
  least : ∀ hops, t.Walk u dest hops → count + 1 ≤ hops.length

theorem Distance.unique {a b : Nat} (ha : t.Distance dest u a) (hb : t.Distance dest u b) :
    a = b := by
  obtain ⟨walkA, hwalkA, hlenA⟩ := ha.attained
  obtain ⟨walkB, hwalkB, hlenB⟩ := hb.attained
  have hab := ha.least walkB hwalkB
  have hba := hb.least walkA hwalkA
  omega

theorem Walk.exists_distance (h : t.Walk u dest hops) :
    ∃ count, t.Distance dest u count ∧ count + 1 ≤ hops.length := by
  classical
  have hex : ∃ count hops, t.Walk u dest hops ∧ hops.length = count + 1 :=
    ⟨hops.length - 1, hops, h, by have := h.length_pos; omega⟩
  have hleast : ∀ other, t.Walk u dest other → Nat.find hex + 1 ≤ other.length := by
    intro other hother
    have hpos := hother.length_pos
    have hmin := Nat.find_min' hex (m := other.length - 1) ⟨other, hother, by omega⟩
    omega
  exact ⟨Nat.find hex, ⟨Nat.find_spec hex, hleast⟩, hleast hops h⟩

theorem distance_zero_iff : t.Distance dest u 0 ↔ u = dest := by
  constructor
  · intro h
    obtain ⟨hops, hwalk, hlen⟩ := h.attained
    cases hwalk with
    | stop => rfl
    | hop _ rest =>
        have := rest.length_pos
        simp only [List.length_cons] at hlen
        omega
  · rintro rfl
    exact ⟨⟨[u], .stop u, rfl⟩, fun hops h => h.length_pos⟩

/-- The first hop of a walk that cannot be shortened comes one hop nearer. -/
theorem Distance.of_hop {count : Nat} (h : t.Distance dest u (count + 1)) (joined : t.Joined u v)
    (rest : t.Walk v dest hops) (hlen : hops.length = count + 1) : t.Distance dest v count := by
  refine ⟨⟨hops, rest, hlen⟩, fun other hother => ?_⟩
  have := h.least (u :: other) (.hop joined hother)
  simp only [List.length_cons] at this
  omega

theorem distance_succ_iff {count : Nat} :
    t.Distance dest u (count + 1) ↔
      (∃ v, t.Joined u v ∧ t.Distance dest v count) ∧ ∀ k ≤ count, ¬ t.Distance dest u k := by
  constructor
  · intro h
    refine ⟨?_, fun k hk hdist => ?_⟩
    · obtain ⟨hops, hwalk, hlen⟩ := h.attained
      cases hwalk with
      | stop => simp at hlen
      | hop joined rest => exact ⟨_, joined, h.of_hop joined rest (by simpa using hlen)⟩
    · have := h.unique hdist
      omega
  · rintro ⟨⟨v, joined, hdist⟩, hfar⟩
    obtain ⟨hops, hwalk, hlen⟩ := hdist.attained
    refine ⟨⟨u :: hops, .hop joined hwalk, by simp [hlen]⟩, fun other hother => ?_⟩
    obtain ⟨k, hk, hle⟩ := hother.exists_distance
    have : ¬ k ≤ count := fun hle => hfar k hle hk
    omega

/-- A walk with the fewest hops does not come back to a node: what lies between could be left
out. -/
theorem Walk.nodup_of_fewest (h : t.Walk source dest hops)
    (hfewest : ∀ other, t.Walk source dest other → hops.length ≤ other.length) : hops.Nodup := by
  induction h with
  | stop => simp
  | @hop u v dest hops joined rest ih =>
      refine List.nodup_cons.mpr ⟨fun hmem => ?_, ih fun other hother => ?_⟩
      · obtain ⟨before, after, rfl⟩ := List.append_of_mem hmem
        -- The walk from the second visit on is shorter by what lies between.
        have := hfewest _ rest.suffix
        simp only [List.length_cons, List.length_append] at this
        omega
      · have := hfewest _ (.hop joined hother)
        simpa using this

/-- There are no more nodes than the table has. -/
theorem length_le_of_inside {n : Nat} (hnodup : hops.Nodup) (hinside : ∀ u ∈ hops, u.index < n) :
    hops.length ≤ n := by
  have hindices : (hops.map Id.index).Nodup := List.Nodup.map Id.index_injective hnodup
  have hsub : hops.map Id.index ⊆ List.range n := by
    intro i hi
    obtain ⟨u, hu, rfl⟩ := List.mem_map.mp hi
    exact List.mem_range.mpr (hinside u hu)
  simpa using (hindices.subperm hsub).length_le

end StreamPlacement.Topology
