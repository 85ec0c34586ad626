import StreamPlacement.Proofs.Backhaul.Distance

/-!
The route between two nodes is the best walk: of the walks with the fewest hops, the first in the
order of node numbers.

A best walk is unique, and what remains of it after any of its hops is the best walk from there. So
a group that is moved down its own route keeps the rest of it.
-/

namespace StreamPlacement.Topology

variable {α : Type} {t : Topology α} {source dest u v : NodeId} {hops other : List NodeId}

/-- A walk with the fewest hops that comes before all others of that length in the order of node
numbers, compared hop by hop from the start. -/
structure Best (t : Topology α) (source dest : NodeId) (hops : List NodeId) : Prop where
  walk : t.Walk source dest hops
  fewest : ∀ other, t.Walk source dest other → hops.length ≤ other.length
  first : ∀ other, t.Walk source dest other → other.length = hops.length → other ≠ hops →
    List.Lex (· < ·) (hops.map Id.index) (other.map Id.index)

theorem Best.nodup (h : t.Best source dest hops) : hops.Nodup := h.walk.nodup_of_fewest h.fewest

theorem Best.unique (h : t.Best source dest hops) (hother : t.Best source dest other) :
    hops = other := by
  have hlen : hops.length = other.length :=
    Nat.le_antisymm (h.fewest other hother.walk) (hother.fewest hops h.walk)
  by_contra hne
  have hbefore := h.first other hother.walk hlen.symm (Ne.symm hne)
  have hafter := hother.first hops h.walk hlen hne
  exact List.lex_asymm (fun hab hba => Nat.lt_asymm hab hba) hbefore hafter

theorem lex_of_append {before : List Nat} {a b : List Nat}
    (h : List.Lex (· < ·) (before ++ a) (before ++ b)) : List.Lex (· < ·) a b := by
  induction before with
  | nil => exact h
  | cons n before ih =>
      rcases List.cons_lex_cons_iff.mp h with hlt | ⟨-, hrest⟩
      · exact absurd hlt (Nat.lt_irrefl n)
      · exact ih hrest

/-- What remains of a best walk after any of its hops is the best walk from there. -/
theorem Best.suffix {before rest : List NodeId} (h : t.Best source dest (before ++ u :: rest)) :
    t.Best u dest (u :: rest) := by
  -- Any other walk from `u` completes the same start, which then cancels in the comparison.
  refine ⟨h.walk.suffix, fun other hother => ?_, fun other hother hlen hne => ?_⟩
  · have := h.fewest _ (h.walk.splice hother)
    simpa using this
  · have hbefore := h.first _ (h.walk.splice hother) (by simp [hlen])
      (fun heq => hne (List.append_cancel_left heq))
    simp only [List.map_append] at hbefore
    exact lex_of_append hbefore

/-! ### One hop more -/

theorem best_self (u : NodeId) : t.Best u u [u] := by
  refine ⟨.stop u, fun other hother => hother.length_pos, fun other hother hlen hne => ?_⟩
  obtain ⟨rest, rfl⟩ := hother.cons_eq
  cases rest with
  | nil => exact absurd rfl hne
  | cons _ _ => simp at hlen

theorem Best.length_eq {count : Nat} (h : t.Best u dest hops) (hdist : t.Distance dest u count) :
    hops.length = count + 1 := by
  obtain ⟨other, hother, hlen⟩ := hdist.attained
  have hle := h.fewest other hother
  have hge := hdist.least hops h.walk
  omega

/-- A hop to the lowest of the nearer neighbours, followed by the best walk from there. -/
theorem Best.hop {count : Nat} (hdist : t.Distance dest u (count + 1)) (joined : t.Joined u v)
    (hnear : t.Distance dest v count)
    (hlowest : ∀ w, t.Joined u w → t.Distance dest w count → v.index ≤ w.index)
    (h : t.Best v dest hops) : t.Best u dest (u :: hops) := by
  have hlen := h.length_eq hnear
  refine ⟨.hop joined h.walk, fun other hother => ?_, fun other hother hother_len hne => ?_⟩
  · have := hdist.least other hother
    simp only [List.length_cons]
    omega
  · cases hother with
    | stop => simp [hlen] at hother_len
    | @hop _ w _ rest joined' hrest =>
        have hrest_len : rest.length = count + 1 := by simpa [hlen] using hother_len
        have hw := hlowest w joined' (hdist.of_hop joined' hrest hrest_len)
        rw [List.map_cons, List.map_cons]
        refine List.cons_lex_cons_iff.mpr (.inr ⟨rfl, ?_⟩)
        rcases Nat.lt_or_eq_of_le hw with hlt | heq
        · -- A higher neighbour decides at the first hop.
          obtain ⟨tail, rfl⟩ := h.walk.cons_eq
          obtain ⟨tail', rfl⟩ := hrest.cons_eq
          rw [List.map_cons, List.map_cons]
          exact List.cons_lex_cons_iff.mpr (.inl hlt)
        · obtain rfl : v = w := Id.index_injective heq
          exact h.first rest hrest (by omega) fun heq => hne (by rw [heq])

end StreamPlacement.Topology
