import StreamPlacement.Proofs.Cache.ServerPool
import StreamPlacement.Proofs.Placement.Operations

/-!
What the operations do to the servers.

Moving groups does not touch them. Relief marks servers as chosen, and an answer of the solver makes
servers known and has them take contents on; nothing else but switching them on changes the pool.
No operation replaces a server that is known, so what it may host is settled before the first one.
-/

namespace StreamPlacement

variable {α : Type} [Quantity α]

namespace Placement

variable {p q : Placement α} {id : GroupId} {node : NodeId}

/-! ### Moving groups -/

@[simp] theorem servers_bookGroup (p : Placement α) (id : GroupId) (edge : Option Edge) :
    (p.bookGroup id edge).servers = p.servers := by
  unfold bookGroup
  split <;> rfl

omit [Quantity α] in
theorem servers_of_redirect {content : ContentId} {relocation : Relocation}
    (h : p.redirect id node content = .ok (relocation, q)) : q.servers = p.servers := by
  simp only [redirect, bind, Except.bind] at h
  split at h
  · cases h
  · split at h
    · cases h
    · split at h
      · cases h
      · obtain ⟨-, rfl⟩ := Prod.mk.inj (Except.ok.inj h)
        rfl

@[simp] theorem servers_rehome (p : Placement α) (id : GroupId) (node : NodeId)
    (edgeFor : Placement α → Option Edge) : (p.rehome id node edgeFor).1.servers = p.servers := by
  unfold rehome
  split
  · rfl
  · dsimp only
    split
    · exact servers_releaseBooking p id
    · next hredirect =>
        rw [servers_bookGroup, servers_of_redirect hredirect, servers_releaseBooking]

@[simp] theorem servers_rehomeAll (node : NodeId) (edge : Option Edge) (ids : List GroupId)
    (p : Placement α) : (rehomeAll node edge ids p).1.servers = p.servers := by
  induction ids generalizing p with
  | nil => rfl
  | cons id rest ih =>
      have hfirst := servers_rehome p id node fun _ => edge
      unfold rehomeAll
      split
      · next heq =>
          rw [heq] at hfirst
          exact hfirst
      · next heq =>
          rw [heq] at hfirst
          exact (ih _).trans hfirst

/-! ### What lasts -/

/-- What is said of a pool lasts when a server becomes known or takes a content on. -/
structure Lasting (P : ServerPool → Prop) : Prop where
  ensure : ∀ {pool : ServerPool} (node : NodeId) (address : Address), P pool →
    P (pool.ensure node address)
  take : ∀ {pool pool' : ServerPool} {node : NodeId} {content : ContentId}, P pool →
    pool.take? node content = some pool' → P pool'

/-- It also lasts when servers are marked as chosen, and when they are switched on. -/
structure Enduring (P : ServerPool → Prop) : Prop extends Lasting P where
  setState : ∀ {pool : ServerPool} (node : NodeId) (state : ServerState), P pool →
    P (pool.setState node state)
  activate : ∀ {pool : ServerPool}, P pool → P pool.activate.2

theorem lasting_allOn : Lasting ServerPool.AllOn where
  ensure node address h := h.ensure node address
  take h htake := h.take? htake

theorem enduring_grows (pool : ServerPool) : Enduring pool.Grows where
  ensure node address h := h.trans (ServerPool.grows_ensure _ node address)
  take h htake := h.trans (ServerPool.grows_take? htake)
  setState node state h := h.trans (ServerPool.grows_setState _ node state)
  activate h := h.trans (ServerPool.grows_activate _)

theorem enduring_within (first : ServerPool) : Enduring first.Within where
  ensure node address h := h.ensure node address
  take h htake := h.take? htake
  setState node state h := h.setState node state
  activate h := h.activate

variable {P : ServerPool → Prop}

theorem Lasting.assign (hlasting : Lasting P) (h : P p.servers) (assignment : Solver.Assignment) :
    P (p.assign assignment).1.servers := by
  rcases p.assign_cases assignment with
    ⟨_, _, heq, rfl | ⟨address, rfl⟩, -⟩ | ⟨_, address, _, -, htake, heq⟩
  · rw [heq]
    exact h
  · rw [heq]
    exact hlasting.ensure _ address h
  · rw [heq, servers_rehome]
    exact hlasting.take (hlasting.ensure _ address h) htake

theorem Lasting.assignAll (hlasting : Lasting P) (h : P p.servers) (completion : Completion)
    (assignments : List Solver.Assignment) :
    P (p.assignAll completion assignments).1.servers := by
  induction assignments generalizing p completion with
  | nil => exact h
  | cons assignment rest ih =>
      rw [assignAll_cons]
      exact ih (hlasting.assign h assignment) _

theorem Lasting.complete (hlasting : Lasting P) (h : P p.servers) (answer : Solver.Answer) :
    P (p.complete answer).1.servers := by
  by_cases hpending : answer.request ∈ p.pending
  · rw [complete_of_pending hpending]
    exact hlasting.assignAll (p := p.awaited answer) h _ _
  · rw [complete_of_not_pending hpending]
    exact h

/-! ### Relief -/

omit [Quantity α] in
theorem Enduring.warm (henduring : Enduring P) {pool : ServerPool} (h : P pool) (node : NodeId)
    (address : Address) : P (pool.warm node address).2 := by
  unfold ServerPool.warm
  split
  · exact h
  · exact henduring.setState node .off (henduring.ensure node address h)

theorem Enduring.carryOut (henduring : Enduring P) (h : P p.servers) (decision : Decision) :
    P (p.carryOut decision).1.servers := by
  have hall := servers_rehomeAll decision.node decision.reason.edge? decision.groups p
  rw [← hall] at h
  unfold Placement.carryOut
  split
  · next heq =>
      rw [heq] at h
      exact h
  · next heq =>
      rw [heq] at h
      split
      · exact h
      · exact henduring.warm h _ _

theorem Enduring.carryOutAll (henduring : Enduring P) (h : P p.servers)
    (decisions : List Decision) : P (carryOutAll decisions p).1.servers := by
  induction decisions generalizing p with
  | nil => exact h
  | cons decision rest ih =>
      have hfirst := henduring.carryOut h decision
      unfold Placement.carryOutAll
      split
      · next heq =>
          rw [heq] at hfirst
          exact hfirst
      · next heq =>
          rw [heq] at hfirst
          exact ih hfirst

theorem Enduring.reallocate (henduring : Enduring P) (h : P p.servers)
    (candidates : List GroupId) : P (p.reallocate candidates).1.servers :=
  henduring.carryOutAll h _

theorem Enduring.relieve (henduring : Enduring P) (h : P p.servers) (e : Edge) :
    P (p.relieve e).1.servers := henduring.reallocate (p := p.clearEdge e) h _

/-! ### Operations -/

omit [Quantity α] in
theorem servers_of_escalate {e : Edge} {request : Solver.RequestId}
    (h : p.escalate e = .ok (request, q)) : q.servers = p.servers := by
  obtain ⟨_, -, rfl⟩ := escalate_eq h
  rfl

theorem servers_of_admitViewer {accessPoint requested : NodeId} {content : ContentId}
    {user : UserId} {admission : Admission}
    (h : p.admitViewer accessPoint requested content user = .ok (admission, q)) :
    q.servers = p.servers := by
  obtain ⟨_, _, _, _, _, rfl⟩ := admitViewer_eq h
  rfl

theorem Enduring.react (henduring : Enduring P) (h : P p.servers) (e : Edge) :
    P (p.react e).1.servers := by
  unfold Placement.react
  split
  · exact henduring.relieve h e
  · split
    · exact h
    · next hescalate => exact servers_of_escalate hescalate ▸ h

theorem Enduring.perform (henduring : Enduring P) (h : P p.servers) (op : Operation) :
    P (p.perform op).servers := by
  cases op with
  | arrive accessPoint requested content user =>
      simp only [Placement.perform]
      split
      · next harrive => exact servers_of_admitViewer harrive ▸ h
      · exact h
  | react e => exact henduring.react h e
  | relieve e => exact henduring.relieve h e
  | reallocate candidates => exact henduring.reallocate h candidates
  | escalate e =>
      simp only [Placement.perform]
      split
      · next hescalate => exact servers_of_escalate hescalate ▸ h
      · exact h
  | complete answer => exact henduring.complete h answer
  | activate => exact henduring.activate h
  | hangUp => exact h

theorem Enduring.run (henduring : Enduring P) (h : P p.servers) (ops : List Operation) :
    P (p.run ops).servers :=
  List.foldlRecOn (motive := fun q : Placement α => P q.servers) ops Placement.perform h
    fun _ hq op _ => henduring.perform hq op

theorem grows_run (p : Placement α) (ops : List Operation) :
    p.servers.Grows (p.run ops).servers := (enduring_grows _).run (.refl _) ops

end Placement

end StreamPlacement
