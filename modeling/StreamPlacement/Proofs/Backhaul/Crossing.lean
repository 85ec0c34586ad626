import StreamPlacement.Proofs.Backhaul.BestRoute

/-!
Two best routes that share a directed edge.

Every part of a best route is as short as can be. So what one best route passes on its way to an
edge is nearer to the start of the edge, what another passes behind it is nearer to the end, and
nothing is both. It follows that routes which share an edge agree on whether a link that both of
them use comes before it.
-/

namespace StreamPlacement

theorem edgesOf_append (before rest : List NodeId) (u : NodeId) :
    edgesOf (before ++ u :: rest) = edgesOf (before ++ [u]) ++ edgesOf (u :: rest) := by
  induction before with
  | nil => rfl
  | cons w before ih =>
      cases before with
      | nil => rfl
      | cons x before => exact congrArg ((w, x) :: ·) ih

theorem fst_mem_of_mem_edgesOf {e : Edge} {hops : List NodeId} (h : e ∈ edgesOf hops) :
    e.1 ∈ hops := (List.of_mem_zip h).1

theorem snd_mem_of_mem_edgesOf {e : Edge} {hops : List NodeId} (h : e ∈ edgesOf hops) :
    e.2 ∈ hops.tail := (List.of_mem_zip h).2

namespace Topology

variable {α : Type} {t : Topology α} {source dest source' dest' a b u v : NodeId}
  {before mid rest before' rest' hops : List NodeId}

/-- No walk between two hops of a best route is shorter than the part of the route between them. -/
theorem Best.segment_le (h : t.Best source dest (before ++ u :: (mid ++ v :: rest)))
    (hwalk : t.Walk u v hops) : mid.length + 2 ≤ hops.length := by
  have hrest : t.Walk v dest (v :: rest) := (List.cons_append ▸ h.suffix.walk).suffix
  have hle := h.suffix.fewest _ (hwalk.append hrest)
  simp only [List.length_cons, List.length_append] at hle
  omega

/-- No node comes before an edge on one best route and after it on another. -/
theorem Best.notMem_of_mem (h : t.Best source dest (before ++ a :: b :: rest))
    (h' : t.Best source' dest' (before' ++ a :: b :: rest')) {w : NodeId}
    (hw : w ∈ before ++ [a]) : w ∉ b :: rest' := by
  intro hw'
  obtain ⟨start, toA, hbefore⟩ := List.append_of_mem hw
  obtain ⟨fromB, tail, hafter⟩ := List.append_of_mem hw'
  -- The way from the edge to the node and the way from the node to the edge, both turned round.
  have hback : t.Walk a w (w :: toA).reverse := by
    have hway : t.Walk source a (start ++ w :: toA) := hbefore ▸ h.walk.upTo
    exact hway.suffix.reverse
  have hback' : t.Walk w b (fromB ++ [w]).reverse := by
    have hway : t.Walk b dest' (fromB ++ w :: tail) :=
      hafter ▸ (List.append_cons before' a _ ▸ h'.walk).suffix
    exact hway.upTo.reverse
  have hwhole : t.Best source dest (start ++ w :: (toA ++ b :: rest)) := by
    have heq : before ++ a :: b :: rest = start ++ w :: (toA ++ b :: rest) := by
      rw [List.append_cons, hbefore, List.append_assoc, List.cons_append]
    exact heq ▸ h
  have hwhole' : t.Best source' dest' (before' ++ a :: (fromB ++ w :: tail)) := hafter ▸ h'
  have hto := hwhole.segment_le hback'
  have hfrom := hwhole'.segment_le hback
  simp only [List.length_reverse, List.length_append, List.length_cons, List.length_nil]
    at hto hfrom
  omega

/-- If one best route uses a link from an edge on, every best route over the edge that uses the
link at all does so from the edge on. -/
theorem Best.link_ahead (h : t.Best source dest (before ++ a :: b :: rest))
    (h' : t.Best source' dest' (before' ++ a :: b :: rest')) {e : Edge}
    (huses : e ∈ edgesOf (before ++ a :: b :: rest) ∨ e.swap ∈ edgesOf (before ++ a :: b :: rest))
    (huses' : e ∈ edgesOf (a :: b :: rest') ∨ e.swap ∈ edgesOf (a :: b :: rest')) :
    e ∈ edgesOf (a :: b :: rest) ∨ e.swap ∈ edgesOf (a :: b :: rest) := by
  obtain ⟨w, hbehind, hend⟩ : ∃ w ∈ b :: rest', w = e.1 ∨ w = e.2 := by
    rcases huses' with hmem | hmem
    · exact ⟨e.2, snd_mem_of_mem_edgesOf hmem, .inr rfl⟩
    · exact ⟨e.1, snd_mem_of_mem_edgesOf hmem, .inl rfl⟩
  -- Before the edge neither end of the link can be met.
  have hearly : ∀ x : Edge, w = x.1 ∨ w = x.2 → x ∉ edgesOf (before ++ [a]) := by
    intro x hx hmem
    refine h.notMem_of_mem h' ?_ hbehind
    rcases hx with rfl | rfl
    · exact fst_mem_of_mem_edgesOf hmem
    · exact List.mem_of_mem_tail (snd_mem_of_mem_edgesOf hmem)
  rw [edgesOf_append, List.mem_append, List.mem_append] at huses
  exact huses.imp (·.resolve_left (hearly e hend)) (·.resolve_left (hearly e.swap hend.symm))

end Topology

end StreamPlacement
