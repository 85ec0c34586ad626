import Mathlib.Data.List.Basic
import Mathlib.Logic.Function.Iterate
import StreamPlacement.Backhaul.Route

/-!
Routes and their cursors.

The edges of a route are a list, one shorter than its hops, and the cursor is a place in it or right
behind it. All that the cursor shows can be read off there: the edge under it is the entry at its
place, the edges ahead are what is left from there on, and the last hop is where nothing is left.
A search goes hop by hop and still ends at the place that the list gives for the edge, which is
behind the list if the edge is not in it.

Nothing is asked of the hops. They may repeat, and there may be one of them or none.
-/

namespace StreamPlacement.Route

variable {r : Route} {e : Edge} {u v : NodeId}

/-! ### The edges and the cursor -/

theorem length_edges (r : Route) : r.edges.length = r.length - 1 := by
  rw [edges, edgesOf, List.length_zip, List.length_tail]
  exact Nat.min_eq_right (Nat.sub_le ..)

/-- The edges between the hops ahead are the edges from the cursor on. -/
theorem edgesOf_ahead (r : Route) : edgesOf r.ahead = r.edges.drop r.cursor := by
  rw [edges, edgesOf, edgesOf, List.zip_eq_zipWith, List.zip_eq_zipWith, List.drop_zipWith,
    List.drop_tail, ahead, List.tail_drop]

theorem getElem?_edges_eq_some_iff {i : Nat} :
    r.edges[i]? = some e ↔ r.hops[i]? = some e.1 ∧ r.hops[i + 1]? = some e.2 := by
  rw [edges, edgesOf, List.getElem?_zip_eq_some, List.getElem?_tail]

theorem currentEdge?_eq (r : Route) : r.currentEdge? = r.edges[r.cursor]? := by
  rw [edges, edgesOf, List.zip_eq_zipWith, List.getElem?_zipWith, List.getElem?_tail, currentEdge?,
    here?, next?]
  rcases r.hops[r.cursor]? with _ | u <;> rcases r.hops[r.cursor + 1]? with _ | v <;> rfl

theorem atEnd_iff : r.atEnd = true ↔ r.edges.length ≤ r.cursor := by
  rw [atEnd, decide_eq_true_iff, length_edges, Nat.sub_le_iff_le_add]

theorem currentEdge?_eq_none_iff : r.currentEdge? = none ↔ r.atEnd = true := by
  rw [currentEdge?_eq, List.getElem?_eq_none_iff, atEnd_iff]

theorem currentEdge?_eq_head? (h : r.cursor = 0) : r.currentEdge? = r.edges.head? := by
  rw [currentEdge?_eq, h, List.head?_eq_getElem?]

theorem mem_edges_of_currentEdge? (h : r.currentEdge? = some e) : e ∈ r.edges :=
  List.mem_of_getElem? (currentEdge?_eq r ▸ h)

theorem drop_edges (h : r.currentEdge? = some e) :
    r.edges.drop r.cursor = e :: r.edges.drop (r.cursor + 1) := by
  rw [currentEdge?_eq] at h
  obtain ⟨hlt, rfl⟩ := List.getElem?_eq_some_iff.mp h
  exact List.drop_eq_getElem_cons hlt

theorem currentEdge?_eq_some_iff :
    r.currentEdge? = some (u, v) ↔ ∃ rest, r.ahead = u :: v :: rest := by
  have hhere : r.here? = r.ahead[0]? := by simp [here?, ahead]
  have hnext : r.next? = r.ahead[1]? := by simp [next?, ahead]
  unfold currentEdge?
  rw [hhere, hnext]
  rcases r.ahead with _ | ⟨x, _ | ⟨y, rest⟩⟩ <;> simp

theorem traversesLink_iff : r.traversesLink e = true ↔ e ∈ r.edges ∨ e.swap ∈ r.edges := by
  simp only [traversesLink, List.any_eq_true, Bool.or_eq_true, beq_iff_eq]
  constructor
  · rintro ⟨x, hmem, rfl | rfl⟩
    · exact .inl hmem
    · exact .inr hmem
  · rintro (hmem | hmem)
    · exact ⟨e, hmem, .inl rfl⟩
    · exact ⟨e.swap, hmem, .inr rfl⟩

theorem traversesLink_swap (r : Route) (e : Edge) : r.traversesLink e.swap = r.traversesLink e := by
  rw [Bool.eq_iff_iff, traversesLink_iff, traversesLink_iff, Prod.swap_swap, or_comm]

/-! ### The hops ahead -/

theorem ahead_eq_hops (h : r.cursor = 0) : r.ahead = r.hops := by
  rw [ahead, h, List.drop_zero]

/-- The way ahead ends where the route ends. -/
theorem getLast?_ahead (h : r.ahead ≠ []) : r.ahead.getLast? = r.last? := by
  have hshort : r.cursor < r.hops.length := by
    simpa [ahead, List.drop_eq_nil_iff] using h
  rw [ahead, last?, List.getLast?_drop, if_neg (Nat.not_le.mpr hshort)]

theorem length_ahead_le (r : Route) : r.ahead.length ≤ r.length := by
  rw [ahead, List.length_drop]
  exact Nat.sub_le ..

theorem ahead_eq_nil (h : r.here? = none) : r.ahead = [] := by
  rw [ahead, List.drop_eq_nil_iff]
  exact List.getElem?_eq_none_iff.mp h

theorem ahead_eq_singleton (h : r.here? = some u) (hnext : r.next? = none) : r.ahead = [u] := by
  obtain ⟨hlt, rfl⟩ := List.getElem?_eq_some_iff.mp h
  rw [ahead, List.drop_eq_getElem_cons hlt, List.drop_eq_nil_iff.mpr]
  exact List.getElem?_eq_none_iff.mp hnext

/-- Where a hop follows, the cursor moves, and what is ahead of it then is what was left. -/
theorem ahead_eq_cons (h : r.here? = some u) (hnext : r.next? = some v) :
    ∃ rest, r.ahead = u :: v :: rest ∧ r.advance.ahead = v :: rest := by
  obtain ⟨hlt, rfl⟩ := List.getElem?_eq_some_iff.mp h
  obtain ⟨hlt', rfl⟩ := List.getElem?_eq_some_iff.mp hnext
  have hfurther : r.atEnd = false := decide_eq_false (Nat.not_le.mpr hlt')
  refine ⟨r.hops.drop (r.cursor + 2), ?_, ?_⟩
  · rw [ahead, List.drop_eq_getElem_cons hlt, List.drop_eq_getElem_cons hlt']
  · rw [advance, hfurther]
    exact List.drop_eq_getElem_cons hlt'

theorem mem_edgesOf_ahead_iff : e ∈ edgesOf r.ahead ↔ ∃ i, r.edges[r.cursor + i]? = some e := by
  rw [edgesOf_ahead, List.mem_iff_getElem?]
  simp only [List.getElem?_drop]

/-- An edge is ahead if two hops in a row, from the cursor on, are its ends. -/
theorem mem_edgesOf_ahead :
    e ∈ edgesOf r.ahead ↔
      ∃ i, r.cursor ≤ i ∧ r.hops[i]? = some e.1 ∧ r.hops[i + 1]? = some e.2 := by
  simp only [mem_edgesOf_ahead_iff, ← getElem?_edges_eq_some_iff]
  constructor
  · rintro ⟨i, hi⟩
    exact ⟨r.cursor + i, Nat.le_add_right .., hi⟩
  · rintro ⟨i, hle, hi⟩
    exact ⟨i - r.cursor, by rwa [Nat.add_sub_cancel' hle]⟩

/-! ### Going ahead -/

theorem advance_of_not_atEnd (h : ¬ r.atEnd = true) :
    r.advance = { r with cursor := r.cursor + 1 } := if_neg h

/-- The cursor passes as many edges as it takes steps, unless there are fewer of them ahead. -/
theorem advance_iterate (r : Route) (steps : Nat) :
    advance^[steps] r = { r with cursor := r.cursor + min steps (r.edges.length - r.cursor) } := by
  induction steps with
  | zero =>
      rw [Nat.zero_min]
      rfl
  | succ steps ih =>
      rw [Function.iterate_succ_apply', ih, advance]
      split
      · next hend =>
          have hpast : r.edges.length ≤ r.cursor + min steps _ := atEnd_iff.mp hend
          refine congrArg (mk r.hops) ?_
          omega
      · next hfurther =>
          have hshort : ¬ r.edges.length ≤ r.cursor + min steps _ :=
            fun hpast => hfurther (atEnd_iff.mpr hpast)
          refine congrArg (mk r.hops) ?_
          dsimp only
          omega

/-- What is told from the hops that are left is what going ahead would show. -/
theorem traversesAhead_iff :
    r.traversesAhead e = true ↔ ∃ steps, (advance^[steps] r).currentEdge? = some e := by
  have hcurrent : ∀ steps, (advance^[steps] r).currentEdge? =
      r.edges[r.cursor + min steps (r.edges.length - r.cursor)]? := by
    intro steps
    rw [advance_iterate, currentEdge?_eq]
    rfl
  rw [traversesAhead, List.contains_iff_mem, mem_edgesOf_ahead_iff]
  constructor
  · rintro ⟨i, hi⟩
    obtain ⟨hlt, -⟩ := List.getElem?_eq_some_iff.mp hi
    refine ⟨i, ?_⟩
    rw [hcurrent, Nat.min_eq_left (Nat.le_sub_of_add_le' (Nat.le_of_lt hlt)), hi]
  · rintro ⟨steps, hsteps⟩
    exact ⟨_, hcurrent steps ▸ hsteps⟩

/-! ### Searching -/

/-- A search for an edge, which looks at the edge under the cursor and goes on by one hop, for as
long as a hop follows. What a search comes to has a derivation, so one that never ended would come
to nothing. -/
inductive Seeks (e : Edge) : Route → Bool × Route → Prop
  | missed {r : Route} (last : r.atEnd = true) : Seeks e r (false, r)
  | found {r : Route} (further : ¬ r.atEnd = true) (here : r.currentEdge? = some e) :
      Seeks e r (true, r)
  | onward {r : Route} {outcome : Bool × Route} (further : ¬ r.atEnd = true)
      (elsewhere : ¬ r.currentEdge? = some e) (rest : Seeks e r.advance outcome) :
      Seeks e r outcome

/-- Wherever a search begins, it ends at the first place of the edge among those ahead. -/
theorem Seeks.outcome_eq {outcome : Bool × Route} (h : Seeks e r outcome) :
    outcome = (r.traversesAhead e,
      { r with cursor := r.cursor + (r.edges.drop r.cursor).idxOf e }) := by
  induction h with
  | @missed r last =>
      have hnone : r.edges.drop r.cursor = [] := List.drop_eq_nil_iff.mpr (atEnd_iff.mp last)
      rw [traversesAhead, edgesOf_ahead, hnone]
      rfl
  | @found r further here =>
      rw [traversesAhead, edgesOf_ahead, drop_edges here, List.idxOf_cons_self,
        List.contains_cons, beq_self_eq_true, Bool.true_or]
      rfl
  | @onward r outcome further elsewhere rest ih =>
      obtain ⟨x, hx⟩ : ∃ x, r.currentEdge? = some x :=
        Option.ne_none_iff_exists'.mp fun hnone => further (currentEdge?_eq_none_iff.mp hnone)
      -- The edge that is passed is not the one sought, so nothing is lost by leaving it behind.
      have hne : x ≠ e := fun heq => elsewhere (heq ▸ hx)
      have hahead : edgesOf r.advance.ahead = r.edges.drop (r.cursor + 1) := by
        rw [edgesOf_ahead, advance_of_not_atEnd further]
        rfl
      rw [ih, traversesAhead, hahead, traversesAhead, edgesOf_ahead, drop_edges hx,
        List.idxOf_cons_ne _ hne, List.contains_cons, beq_false_of_ne hne.symm, Bool.false_or,
        advance_of_not_atEnd further]
      refine congrArg (fun cursor => (_, mk r.hops cursor)) ?_
      exact Nat.succ_add_eq_add_succ ..

/-- With a step for each edge ahead, the steps do not run out before the search is over. -/
theorem seeks_walkTo {steps : Nat} (h : r.edges.length ≤ r.cursor + steps) :
    Seeks e r (walkTo e steps r) := by
  induction steps generalizing r with
  | zero => exact .missed (atEnd_iff.mpr h)
  | succ steps ih =>
      rw [walkTo]
      split
      · next hend => exact .missed hend
      · next hfurther =>
          split
          · next hhere => exact .found hfurther hhere
          · next helsewhere =>
              refine .onward hfurther helsewhere (ih ?_)
              rw [advance_of_not_atEnd hfurther]
              exact Nat.le_trans h (Nat.le_of_eq (Nat.succ_add_eq_add_succ ..).symm)

theorem seeks_seek (r : Route) (e : Edge) : Seeks e r.rewind (r.seek e) := by
  refine seeks_walkTo (Nat.le_trans (Nat.le_of_eq (length_edges r)) ?_)
  exact Nat.le_trans (Nat.sub_le ..) (Nat.le_add_left ..)

/-- A search from the start ends, and in one way only. -/
theorem seeks_iff {outcome : Bool × Route} : Seeks e r.rewind outcome ↔ outcome = r.seek e := by
  constructor
  · intro h
    rw [h.outcome_eq, (seeks_seek r e).outcome_eq]
  · rintro rfl
    exact seeks_seek r e

theorem seek_eq (r : Route) (e : Edge) :
    r.seek e = (r.traverses e, { r with cursor := r.edges.idxOf e }) := by
  rw [(seeks_seek r e).outcome_eq]
  refine congrArg (fun cursor => (_, mk r.hops cursor)) ?_
  exact Nat.zero_add _

theorem traverses_iff : r.traverses e = true ↔ e ∈ r.edges := List.contains_iff_mem

theorem currentEdge?_seek (h : e ∈ r.edges) : (r.seek e).2.currentEdge? = some e := by
  rw [seek_eq, currentEdge?_eq]
  exact List.getElem?_idxOf h

/-- A search passes over no edge that it is for. -/
theorem getElem?_edges_ne_of_lt_seek {i : Nat} (h : i < (r.seek e).2.cursor) :
    r.edges[i]? ≠ some e := by
  intro hhere
  obtain ⟨_, hhere⟩ := List.getElem?_eq_some_iff.mp hhere
  rw [seek_eq] at h
  have hbefore := List.not_of_lt_findIdx h
  rw [hhere, beq_self_eq_true] at hbefore
  cases hbefore

theorem cursor_seek_of_notMem (h : e ∉ r.edges) : (r.seek e).2.cursor = r.length - 1 := by
  rw [seek_eq, ← length_edges]
  exact List.idxOf_of_notMem h

/-! ### Cursors in range -/

/-- The cursor is on a hop, or at the start of a route without hops. -/
def Valid (r : Route) : Prop := r.cursor < r.length ∨ r.hops = [] ∧ r.cursor = 0

instance (r : Route) : Decidable r.Valid :=
  inferInstanceAs (Decidable (r.cursor < r.length ∨ r.hops = [] ∧ r.cursor = 0))

theorem Valid.ahead_eq_nil_iff (h : r.Valid) : r.ahead = [] ↔ r.hops = [] := by
  rw [ahead, List.drop_eq_nil_iff]
  constructor
  · intro hpast
    rcases h with hon | ⟨hnone, -⟩
    · exact absurd hon (Nat.not_lt.mpr hpast)
    · exact hnone
  · intro hnone
    simp [hnone]

/-- A cursor is in range as long as it is no further than right behind the edges. -/
theorem valid_iff : r.Valid ↔ r.cursor ≤ r.edges.length := by
  rw [Valid, length_edges, ← List.length_eq_zero_iff, length]
  omega

/-- Where a route comes from. -/
inductive Origin
  | empty
  | single (node : NodeId)
  | ofHops (hops : List NodeId)

def Origin.route : Origin → Route
  | .empty => Route.empty
  | .single node => Route.single node
  | .ofHops hops => Route.ofHops hops

/-- What is done with a route. -/
inductive Action
  | push (hop : NodeId)
  | rewind
  | advance
  | retreat
  | toLastEdge
  | clear
  | seek (e : Edge)

/-- The route after one action. -/
def act (r : Route) : Action → Route
  | .push hop => r.push hop
  | .rewind => r.rewind
  | .advance => r.advance
  | .retreat => r.retreat
  | .toLastEdge => r.toLastEdge
  | .clear => r.clear
  | .seek e => (r.seek e).2

/-- The route after some actions. -/
def afterAll (r : Route) (actions : List Action) : Route := actions.foldl act r

theorem Origin.valid (origin : Origin) : origin.route.Valid := by
  rw [valid_iff]
  cases origin <;> exact Nat.zero_le _

theorem Valid.act (h : r.Valid) (action : Action) : (r.act action).Valid := by
  cases action with
  | push hop =>
      rw [valid_iff, length_edges] at h ⊢
      show r.cursor ≤ (r.hops ++ [hop]).length - 1
      rw [List.length_append]
      exact Nat.le_trans h (Nat.sub_le ..)
  | rewind => exact valid_iff.mpr (Nat.zero_le _)
  | advance =>
      rw [Route.act, Route.advance]
      split
      · exact h
      · next hfurther =>
          exact valid_iff.mpr (Nat.lt_of_not_le fun hpast => hfurther (atEnd_iff.mpr hpast))
  | retreat => exact valid_iff.mpr (Nat.le_trans (Nat.sub_le ..) (valid_iff.mp h))
  | toLastEdge =>
      rw [valid_iff, length_edges]
      exact Nat.sub_le_sub_left (Nat.le_succ 1) _
  | clear => exact valid_iff.mpr (Nat.zero_le _)
  | seek e =>
      rw [Route.act, seek_eq, valid_iff]
      exact List.idxOf_le_length

theorem Valid.afterAll (h : r.Valid) (actions : List Action) : (r.afterAll actions).Valid :=
  List.foldlRecOn actions Route.act h fun _ hvalid action _ => hvalid.act action

/-- Whatever is done with a route, its cursor stays in range, what is ahead is what going ahead
would show, and a search ends. It leaves the hops alone and puts the cursor on the first
occurrence of the edge, or on the last hop if the edge is not on the route. -/
theorem cursor_afterAll (origin : Origin) (actions : List Action) (e : Edge) :
    let r := origin.route.afterAll actions
    let sought := r.seek e
    (r.cursor < r.length ∨ r.hops = [] ∧ r.cursor = 0) ∧
    (r.traversesAhead e = true ↔ ∃ steps, (advance^[steps] r).currentEdge? = some e) ∧
    (∀ outcome, Seeks e r.rewind outcome ↔ outcome = sought) ∧
    sought.2.hops = r.hops ∧
    sought.1 = r.traverses e ∧
    (sought.1 = true → sought.2.currentEdge? = some e ∧
      ∀ i < sought.2.cursor, r.edges[i]? ≠ some e) ∧
    (sought.1 = false → sought.2.cursor = r.length - 1) := by
  intro r sought
  have hvalid : r.Valid := origin.valid.afterAll actions
  have hsought : sought = (r.traverses e, { r with cursor := r.edges.idxOf e }) := r.seek_eq e
  have hanswer : sought.1 = r.traverses e := congrArg Prod.fst hsought
  refine ⟨hvalid, traversesAhead_iff, fun outcome => seeks_iff, ?_, hanswer, ?_, ?_⟩
  · rw [hsought]
  · intro hfound
    have hmem : e ∈ r.edges := traverses_iff.mp (hanswer ▸ hfound)
    exact ⟨currentEdge?_seek hmem, fun i hi => getElem?_edges_ne_of_lt_seek hi⟩
  · intro hmissed
    refine cursor_seek_of_notMem fun hmem => ?_
    rw [hanswer, traverses_iff.mpr hmem] at hmissed
    cases hmissed

/-- On a route that goes round, a search goes back to the first occurrence of an edge, and an edge
behind the cursor is not ahead. -/
example :
    let r := (Route.ofHops [⟨0⟩, ⟨1⟩, ⟨2⟩, ⟨0⟩, ⟨1⟩]).afterAll [.toLastEdge, .retreat, .push ⟨3⟩]
    r.seek (⟨0⟩, ⟨1⟩) = (true, r.rewind) ∧ r.traversesAhead (⟨1⟩, ⟨2⟩) = false := by decide

end StreamPlacement.Route
