import StreamPlacement.Proofs.Placement.Frame

/-!
What is on record about the solver.

Requests are handed over in one place and answers are accepted in one. All other operations leave
the record alone, whatever becomes of them: groups are admitted, moved and booked beside it. So the
counts agree with what is awaited after any operations, and as long as answers come in the order of
their requests, the requests that are awaited are the latest ones.
-/

namespace StreamPlacement

/-- What was asked of the solver, what is awaited of it, and how often each has happened. -/
structure Exchange where
  strategy : Strategy
  requests : Array Solver.Request
  pending : List Solver.RequestId
  submitted : Nat
  completed : Nat

namespace Exchange

variable {x y : Exchange}

/-- One more request is handed over. -/
def submit (x : Exchange) (request : Solver.Request) : Exchange :=
  { x with
    requests := x.requests.push request
    pending := x.pending ++ [x.requests.size]
    submitted := x.submitted + 1 }

/-- The answer to a request is accepted. -/
def accept (x : Exchange) (id : Solver.RequestId) : Exchange :=
  { x with pending := x.pending.erase id, completed := x.completed + 1 }

/-- The counts agree with what is awaited. -/
def Tallied (x : Exchange) : Prop := x.submitted = x.completed + x.pending.length

/-- What is said of the record stays true when a request is handed over, when an awaited answer is
accepted, and when the solver hangs up. -/
structure Stable (P : Exchange → Prop) : Prop where
  submit : ∀ {x : Exchange} (request : Solver.Request), P x → P (x.submit request)
  accept : ∀ {x : Exchange} {id : Solver.RequestId}, P x → id ∈ x.pending → P (x.accept id)
  hangUp : ∀ {x : Exchange}, P x → P { x with strategy := x.strategy.hungUp }

theorem stable_tallied : Stable Tallied where
  submit request h := by
    unfold Tallied at h ⊢
    simp only [Exchange.submit, List.length_append, List.length_singleton]
    omega
  accept h hid := by
    unfold Tallied at h ⊢
    have hpos := List.length_pos_of_mem hid
    simp only [Exchange.accept, List.length_erase_of_mem hid]
    omega
  hangUp h := h

/-- What is awaited was asked, and is awaited once. -/
structure Numbered (x : Exchange) : Prop where
  lt_size : ∀ id ∈ x.pending, id < x.requests.size
  nodup : x.pending.Nodup

theorem stable_numbered : Stable Numbered where
  submit {x} request h := by
    constructor
    · intro id hmem
      simp only [Exchange.submit, Array.size_push]
      rcases List.mem_append.mp hmem with hmem | hmem
      · exact Nat.lt_succ_of_lt (h.lt_size id hmem)
      · exact List.mem_singleton.mp hmem ▸ Nat.lt_succ_self _
    · have hnew : x.requests.size ∉ x.pending := fun hmem => (h.lt_size _ hmem).false
      exact List.nodup_append.mpr ⟨h.nodup, List.nodup_singleton _, fun id hid id' hid' heq =>
        hnew (by rwa [← List.mem_singleton.mp hid', ← heq])⟩
  accept h _ :=
    ⟨fun id hmem => h.lt_size id (List.mem_of_mem_erase hmem), h.nodup.erase _⟩
  hangUp h := ⟨h.lt_size, h.nodup⟩

/-- The request was made, and its answer is not awaited any more. -/
def Answered (id : Solver.RequestId) (x : Exchange) : Prop :=
  id < x.requests.size ∧ id ∉ x.pending

/-- Nobody asks under a number again. -/
theorem stable_answered (id : Solver.RequestId) : Stable (Answered id) where
  submit {x} request h := by
    obtain ⟨hlt, hnot⟩ := h
    constructor
    · simp only [Exchange.submit, Array.size_push]
      exact Nat.lt_succ_of_lt hlt
    · intro hmem
      rcases List.mem_append.mp hmem with hmem | hmem
      · exact hnot hmem
      · exact Nat.ne_of_lt hlt (List.mem_singleton.mp hmem)
  accept h _ := ⟨h.1, fun hmem => h.2 (List.mem_of_mem_erase hmem)⟩
  hangUp h := h

theorem Numbered.answered_accept (h : x.Numbered) {id : Solver.RequestId} (hid : id ∈ x.pending) :
    (x.accept id).Answered id :=
  ⟨h.lt_size id hid, h.nodup.not_mem_erase⟩

/-! ### Answers in order -/

/-- The solver listens, and what is awaited of it are the answers to its latest requests, in
order. -/
structure InOrder (x : Exchange) : Prop where
  listening : x.strategy = .optimizer true
  submitted_eq : x.submitted = x.requests.size
  completed_le : x.completed ≤ x.requests.size
  pending_eq : x.pending = List.range' x.completed (x.requests.size - x.completed)

theorem InOrder.tallied (h : x.InOrder) : x.Tallied := by
  have hle := h.completed_le
  rw [Tallied, h.submitted_eq, h.pending_eq, List.length_range']
  omega

/-- Nothing is awaited once as many answers were accepted as there are requests. -/
theorem InOrder.pending_eq_nil_iff (h : x.InOrder) :
    x.pending = [] ↔ x.completed = x.requests.size := by
  have hle := h.completed_le
  rw [h.pending_eq, List.range'_eq_nil_iff]
  omega

theorem InOrder.submit (h : x.InOrder) (request : Solver.Request) : (x.submit request).InOrder where
  listening := h.listening
  submitted_eq := by simp [Exchange.submit, h.submitted_eq]
  completed_le := by
    have hle := h.completed_le
    simp only [Exchange.submit, Array.size_push]
    omega
  pending_eq := by
    have hle := h.completed_le
    have hmore : x.requests.size + 1 - x.completed = x.requests.size - x.completed + 1 := by omega
    have hlast : x.completed + (x.requests.size - x.completed) = x.requests.size := by omega
    simp only [Exchange.submit, Array.size_push, h.pending_eq, hmore, List.range'_concat, one_mul,
      hlast]

/-- The answer that is due next is the first that is awaited. -/
theorem InOrder.pending_eq_cons (h : x.InOrder) (hdue : x.completed < x.requests.size) :
    x.pending =
      x.completed :: List.range' (x.completed + 1) (x.requests.size - (x.completed + 1)) := by
  have hmore : x.requests.size - x.completed = x.requests.size - (x.completed + 1) + 1 := by omega
  rw [h.pending_eq, hmore, List.range'_succ]

theorem InOrder.accept (h : x.InOrder) (hdue : x.completed < x.requests.size) :
    (x.accept x.completed).InOrder where
  listening := h.listening
  submitted_eq := h.submitted_eq
  completed_le := hdue
  pending_eq := by simp only [Exchange.accept, h.pending_eq_cons hdue, List.erase_cons_head]

/-! ### Requests in a row -/

/-- Some requests were handed over, and nothing else happened. -/
abbrev Asks : Exchange → Exchange → Prop :=
  Relation.ReflTransGen fun x y => ∃ request, y = x.submit request

theorem Asks.stable {P : Exchange → Prop} (h : x.Asks y) (hstable : Stable P) (hx : P x) : P y := by
  induction h with
  | refl => exact hx
  | tail _ hsubmit ih =>
      obtain ⟨request, rfl⟩ := hsubmit
      exact hstable.submit request ih

theorem Asks.inOrder (h : x.Asks y) (hx : x.InOrder) : y.InOrder := by
  induction h with
  | refl => exact hx
  | tail _ hsubmit ih =>
      obtain ⟨request, rfl⟩ := hsubmit
      exact ih.submit request

theorem Asks.completed_eq (h : x.Asks y) : y.completed = x.completed := by
  induction h with
  | refl => rfl
  | tail _ hsubmit ih =>
      obtain ⟨request, rfl⟩ := hsubmit
      exact ih

/-- A request keeps its place. -/
theorem Asks.requests_of (h : x.Asks y) {id : Solver.RequestId} {request : Solver.Request}
    (hrequest : x.requests[id]? = some request) : y.requests[id]? = some request := by
  induction h with
  | refl => exact hrequest
  | tail _ hsubmit ih =>
      obtain ⟨_, rfl⟩ := hsubmit
      obtain ⟨hlt, -⟩ := Array.getElem?_eq_some_iff.mp ih
      rw [submit, Array.getElem?_push_lt hlt, ← ih, Array.getElem?_eq_getElem hlt]

theorem Asks.size_le (h : x.Asks y) : x.requests.size ≤ y.requests.size := by
  induction h with
  | refl => exact le_rfl
  | tail _ hsubmit ih =>
      obtain ⟨_, rfl⟩ := hsubmit
      simp only [submit, Array.size_push]
      omega

end Exchange

namespace Placement

variable {α : Type}

/-- What the state has on record about the solver. -/
def exchange (p : Placement α) : Exchange where
  strategy := p.strategy
  requests := p.requests
  pending := p.pending
  submitted := p.tally.escalationsSubmitted
  completed := p.tally.escalationsCompleted

variable [Quantity α] {p q : Placement α}

omit [Quantity α] in
/-- The record is part of the frame, so groups are moved beside it. -/
theorem exchange_eq_of_frame (h : q.frame = p.frame) : q.exchange = p.exchange :=
  congrArg (fun frame : Frame => (⟨frame.strategy, frame.requests, frame.pending,
    frame.tally.escalationsSubmitted, frame.tally.escalationsCompleted⟩ : Exchange)) h

/-! ### Requests and answers -/

omit [Quantity α] in
theorem exchange_of_escalate {e : Edge} {request : Solver.RequestId}
    (h : p.escalate e = .ok (request, q)) : ∃ asked, q.exchange = p.exchange.submit asked := by
  obtain ⟨asked, -, rfl⟩ := escalate_eq h
  exact ⟨asked, rfl⟩

/-- An answer is accepted if it is awaited, and otherwise it changes nothing. -/
theorem exchange_complete (p : Placement α) (answer : Solver.Answer) :
    (p.complete answer).1.exchange =
      if answer.request ∈ p.exchange.pending then p.exchange.accept answer.request
      else p.exchange := by
  have hpending : p.exchange.pending = p.pending := rfl
  rw [hpending]
  split
  · next hawaited =>
      rw [complete_of_pending hawaited]
      exact exchange_eq_of_frame (frame_assignAll (p.awaited answer)
        { request := answer.request } answer.assignments)
  · next hstray => rw [complete_of_not_pending hstray]

/-! ### Operations -/

theorem asks_react (p : Placement α) (e : Edge) : p.exchange.Asks (p.react e).1.exchange := by
  simp only [react]
  split
  · rw [exchange_eq_of_frame (frame_relieve p e)]
  · split
    · exact .refl
    · next hescalate => exact .single (exchange_of_escalate hescalate)

theorem asks_arrive (p : Placement α) (accessPoint requested : NodeId) (content : ContentId)
    (user : UserId) :
    p.exchange.Asks (p.perform (.arrive accessPoint requested content user)).exchange := by
  simp only [perform]
  split
  · next harrive =>
      obtain ⟨_, _, _, _, _, rfl⟩ := admitViewer_eq harrive
      exact .refl
  · exact .refl

end Placement

namespace Exchange.Stable

variable {α : Type} [Quantity α] {p : Placement α} {P : Exchange → Prop}

/-- What submission, acceptance and hanging up keep true stays true whatever happens. -/
theorem perform (hstable : Stable P) (h : P p.exchange) (op : Operation) :
    P (p.perform op).exchange := by
  cases op with
  | arrive accessPoint requested content user =>
      exact (p.asks_arrive _ _ _ _).stable hstable h
  | react e => exact (p.asks_react e).stable hstable h
  | relieve e =>
      exact (Placement.exchange_eq_of_frame (Placement.frame_relieve p e)).symm ▸ h
  | reallocate candidates =>
      exact (Placement.exchange_eq_of_frame (Placement.frame_reallocate p candidates)).symm ▸ h
  | escalate e =>
      simp only [Placement.perform]
      split
      · next hescalate =>
          obtain ⟨request, heq⟩ := Placement.exchange_of_escalate hescalate
          exact heq.symm ▸ hstable.submit request h
      · exact h
  | complete answer =>
      simp only [Placement.perform, Placement.exchange_complete]
      split
      · next hawaited => exact hstable.accept h hawaited
      · exact h
  | activate => exact h
  | hangUp => exact hstable.hangUp h

theorem run (hstable : Stable P) (h : P p.exchange) (ops : List Operation) :
    P (p.run ops).exchange :=
  List.foldlRecOn (motive := fun q : Placement α => P q.exchange) ops Placement.perform h
    fun _ hq op _ => hstable.perform hq op

end Exchange.Stable

namespace Deployment

variable {α : Type} [Quantity α]

/-- The counts agree with what is awaited after any run. -/
theorem tallied_after (d : Deployment α) (ops : List Operation) :
    (d.after ops).exchange.Tallied :=
  Exchange.stable_tallied.run (p := d.start) rfl ops

theorem numbered_after (d : Deployment α) (ops : List Operation) :
    (d.after ops).exchange.Numbered :=
  Exchange.stable_numbered.run (p := d.start)
    ⟨fun _ hid => absurd hid List.not_mem_nil, List.nodup_nil⟩ ops

end Deployment

end StreamPlacement
