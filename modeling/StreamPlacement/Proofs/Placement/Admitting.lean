import StreamPlacement.Proofs.Container.Failing
import StreamPlacement.Proofs.Placement.Commands

/-!
Admission as it happens, one write after the other.

To let a viewer in, a few things are looked up that may not be there, and in between the directory,
the groups, the loads and the counts are written to; even the group that was just written is looked
up again, twice. Here all of this is spelled out in order, on a state that keeps what was written
when a later lookup fails. Whatever can be missing turns out to be missing before the first write,
and the lookups after it find the group that the first one has left there. So an admission is all
or nothing.
-/

namespace StreamPlacement

/-- Something that is done to the state. What it has written before a fault stays written. -/
abbrev Procedure (α β : Type) := ExceptT Fault (StateM (Placement α)) β

namespace Procedure

variable {α β : Type}

/-- What a procedure answers, and the state that it leaves behind. -/
def runOn (procedure : Procedure α β) (p : Placement α) : Except Fault β × Placement α :=
  (procedure.run.run p).run

/-- A lookup, which writes nothing. -/
def attempt (result : Except Fault β) : Procedure α β := ExceptT.mk (pure result)

variable {γ : Type} (p : Placement α)

@[simp] theorem runOn_pure (b : β) : (pure b : Procedure α β).runOn p = (.ok b, p) := rfl

@[simp] theorem runOn_throw (fault : Fault) :
    (throw fault : Procedure α β).runOn p = (.error fault, p) := rfl

@[simp] theorem runOn_get : (get : Procedure α (Placement α)).runOn p = (.ok p, p) := rfl

@[simp] theorem runOn_modify (change : Placement α → Placement α) :
    (modify change : Procedure α PUnit).runOn p = (.ok ⟨⟩, change p) := rfl

@[simp] theorem runOn_attempt (result : Except Fault β) :
    (attempt result : Procedure α β).runOn p = (result, p) := rfl

/-- What comes after a fault is not done, and what came before it is not undone. -/
@[simp] theorem runOn_bind (procedure : Procedure α β) (next : β → Procedure α γ) :
    (procedure >>= next).runOn p =
      match procedure.runOn p with
      | (.ok b, q) => (next b).runOn q
      | (.error fault, q) => (.error fault, q) := by
  refine (Failing.run_bind procedure next p).trans ?_
  unfold runOn
  rcases procedure.run.run p with ⟨fault | b, q⟩ <;> rfl

end Procedure

namespace Placement

variable {α : Type} [Quantity α]

/-- Puts a viewer into the group of its key. A new key is entered in the directory first. -/
def enrollInPlace (accessPoint requested : NodeId) (content : ContentId) (user : UserId) :
    Procedure α GroupId := do
  let p ← get
  match p.book.client? user with
  | none => throw (.unknownClient user)
  | some attachment =>
    let key := p.registry.grouping.keyFor attachment.broadcast content
    let viewer : Viewer := { user, content, address := attachment.address }
    match p.registry.find? key with
    | some id =>
      modify fun p => { p with registry := p.registry.modify id (·.addViewer viewer) }
      return id
    | none =>
      let route ← .attempt (p.topology.route requested accessPoint)
      let address ← match p.directory.get? key with
        | some address => pure address
        | none => do
          let address ← .attempt (p.book.nodeAddress requested)
          modify fun p => { p with directory := p.directory.insert key address }
          pure address
      let group := p.registry.founded p.book attachment accessPoint requested content user address
        route
      modify fun p =>
        { p with registry := { p.registry with groups := p.registry.groups ++ [group] } }
      return group.id

/-- Lets a viewer in and books a stream on the first hop of its group if there is room for it. -/
def admitInPlace (accessPoint requested : NodeId) (content : ContentId) (user : UserId) :
    Procedure α Admission := do
  let id ← enrollInPlace accessPoint requested content user
  let p ← get
  match p.registry.group? id with
  | none => throw (.unknownGroup id)
  | some group =>
    match group.route.currentEdge? with
    | none =>
      modify fun p => { p with tally := { p.tally with admitted := p.tally.admitted + 1 } }
      return .accepted id none
    | some e =>
      if p.topology.admitsStream e then
        modify fun p => { p with topology := p.topology.allocate e }
        let p ← get
        match p.registry.group? id with
        | none => throw (.unknownGroup id)
        | some _ =>
          modify fun p => { p with registry := p.registry.modify id (·.bookStream e) }
          modify fun p => { p with tally := { p.tally with admitted := p.tally.admitted + 1 } }
          return .accepted id (some e)
      else
        modify fun p => { p with tally := { p.tally with refused := p.tally.refused + 1 } }
        return .exceeded id e

variable {d : Deployment α} {p : Placement α}

omit [Quantity α] in
/-- An enrolment looks up all that it needs before it writes. -/
theorem runOn_enrollInPlace (p : Placement α) (accessPoint requested : NodeId)
    (content : ContentId) (user : UserId) :
    (enrollInPlace accessPoint requested content user).runOn p =
      match p.registry.enroll p.topology p.book p.directory accessPoint requested content user with
      | .ok (id, registry, directory) => (.ok id, { p with registry, directory })
      | .error fault => (.error fault, p) := by
  simp only [enrollInPlace, Registry.enroll, Procedure.runOn_bind, Procedure.runOn_get]
  cases p.book.client? user with
  | none => rfl
  | some attachment =>
      dsimp only
      cases p.registry.find? (p.registry.grouping.keyFor attachment.broadcast content) with
      | some id => rfl
      | none =>
          simp only [Procedure.runOn_bind, Procedure.runOn_attempt]
          cases p.topology.route requested accessPoint with
          | error fault => rfl
          | ok route =>
              cases p.directory.get? (p.registry.grouping.keyFor attachment.broadcast content) with
              | some address => rfl
              | none =>
                  simp only [Procedure.runOn_bind, Procedure.runOn_attempt]
                  cases p.book.nodeAddress requested with
                  | error fault => rfl
                  | ok address => rfl

/-- So does an admission, as its group is there when it is looked up again. -/
theorem Filed.runOn_admitInPlace (h : Filed d p) (accessPoint requested : NodeId)
    (content : ContentId) (user : UserId) :
    (admitInPlace accessPoint requested content user).runOn p =
      match p.admitViewer accessPoint requested content user with
      | .ok (admission, q) => (.ok admission, q)
      | .error fault => (.error fault, p) := by
  simp only [admitInPlace, Placement.admitViewer, Procedure.runOn_bind, runOn_enrollInPlace]
  cases henroll : p.registry.enroll p.topology p.book p.directory accessPoint requested content
      user with
  | error fault => rfl
  | ok result =>
      obtain ⟨id, registry, directory⟩ := result
      obtain ⟨-, group, hgroup⟩ := h.enroll henroll
      conv_rhs => simp only [bind, Except.bind]
      simp only [Procedure.runOn_get, hgroup, Option.bind_some]
      cases group.route.currentEdge? with
      | none => rfl
      | some e =>
          dsimp only
          split
          · simp only [Procedure.runOn_bind, Procedure.runOn_modify, Procedure.runOn_get, hgroup]
            rfl
          · rfl

omit [Quantity α] in
/-- A viewer that is known joins a group that is there, whatever else is missing. The first of its
key needs a way from the server that it asks for, and an address for the key. -/
theorem enroll_eq_error_iff {registry : Registry} {t : Topology α} {book : AddressBook}
    {directory : Directory} {accessPoint requested : NodeId} {content : ContentId} {user : UserId}
    {attachment : Attachment} {key : GroupKey} {fault : Fault}
    (hclient : book.client? user = some attachment)
    (hkey : registry.grouping.keyFor attachment.broadcast content = key) :
    registry.enroll t book directory accessPoint requested content user = .error fault ↔
      registry.find? key = none ∧
        (t.route requested accessPoint = .error fault ∨
          (t.route requested accessPoint).isOk ∧ directory.get? key = none ∧
            book.nodeAddress requested = .error fault) := by
  simp only [Registry.enroll, hclient, hkey]
  cases registry.find? key with
  | some id => simp
  | none =>
      cases t.route requested accessPoint with
      | error fault' => simp [bind, Except.bind, Except.isOk, Except.toBool]
      | ok route =>
          cases directory.get? key with
          | some address => simp [bind, Except.bind, pure, Except.pure]
          | none =>
              cases book.nodeAddress requested <;>
                simp [bind, Except.bind, pure, Except.pure, Except.isOk, Except.toBool]

/-- Once a viewer is enrolled, nothing can fail. -/
theorem admitViewer_eq_error_iff {accessPoint requested : NodeId} {content : ContentId}
    {user : UserId} {fault : Fault} :
    p.admitViewer accessPoint requested content user = .error fault ↔
      p.registry.enroll p.topology p.book p.directory accessPoint requested content user =
        .error fault := by
  unfold admitViewer
  cases p.registry.enroll p.topology p.book p.directory accessPoint requested content user with
  | error fault' => simp [bind, Except.bind]
  | ok result =>
      obtain ⟨id, registry, directory⟩ := result
      simp only [bind, Except.bind, reduceCtorEq, iff_false]
      split
      · simp [pure, Except.pure]
      · split <;> simp [pure, Except.pure]

end Placement

namespace Deployment

variable {α : Type} [Quantity α]

/-- After any commands, an admission that is carried out write by write comes to what is asked for,
and where it fails it leaves everything as it was. It fails exactly for a viewer that nobody knows,
and for the first viewer of a key if there is no route from the server that it asks for, or if
neither the directory nor the book has an address. -/
theorem admission_afterAll (d : Deployment α) (commands : List Command)
    (accessPoint requested : NodeId) (content : ContentId) (user : UserId) :
    let p := d.afterAll commands
    let ran := (Placement.admitInPlace accessPoint requested content user).runOn p
    (ran = match p.admitViewer accessPoint requested content user with
      | .ok (admission, q) => (.ok admission, q)
      | .error fault => (.error fault, p)) ∧
    (∀ fault, ran.1 = .error fault → ran.2 = p) ∧
    ∀ fault, ran.1 = .error fault ↔
      (d.book.client? user = none ∧ fault = .unknownClient user) ∨
        ∃ attachment, d.book.client? user = some attachment ∧
          let key := d.grouping.keyFor attachment.broadcast content
          (∀ group ∈ p.registry.groups, group.key ≠ key) ∧
            (p.topology.route requested accessPoint = .error fault ∨
              ((p.topology.route requested accessPoint).isOk ∧ p.directory.get? key = none ∧
                d.book.nodeAddress requested = .error fault)) := by
  intro p ran
  have hfiled : p.Filed d := d.filed_afterAll commands
  have hran : ran = _ := hfiled.runOn_admitInPlace accessPoint requested content user
  refine ⟨hran, ?_, ?_⟩
  · intro fault hfault
    rw [hran] at hfault ⊢
    cases harrive : p.admitViewer accessPoint requested content user with
    | ok result =>
        rw [harrive] at hfault
        cases hfault
    | error fault' => rfl
  · intro fault
    have herror : ran.1 = .error fault ↔
        p.admitViewer accessPoint requested content user = .error fault := by
      rw [hran]
      cases p.admitViewer accessPoint requested content user <;> simp
    rw [herror, Placement.admitViewer_eq_error_iff, ← hfiled.book_eq, ← hfiled.grouping_eq]
    cases hclient : p.book.client? user with
    | none =>
        simp only [Registry.enroll, hclient, reduceCtorEq, false_and, exists_false, or_false,
          true_and, Except.error.injEq]
        exact eq_comm
    | some attachment =>
        rw [Placement.enroll_eq_error_iff hclient rfl, Registry.find?_eq_none]
        simp

/-- After the rush the first viewer asks the server that nothing is wired to for another content.
It is turned away, and nothing has changed. -/
theorem admission_on_line :
    let p := line.afterAll (line.rush.map .operate)
    let ran := (Placement.admitInPlace ⟨2⟩ ⟨3⟩ ⟨8⟩ ⟨0⟩).runOn p
    ran.1 = .error (.noRoute ⟨3⟩ ⟨2⟩) ∧ ran.2 = p := by
  intro p ran
  obtain ⟨-, hsame, herror⟩ := admission_afterAll line (line.rush.map .operate) ⟨2⟩ ⟨3⟩ ⟨8⟩ ⟨0⟩
  obtain ⟨attachment, hclient⟩ : ∃ attachment, line.book.client? ⟨0⟩ = some attachment :=
    Option.isSome_iff_exists.mp (by decide +kernel)
  have hnew : ∀ group ∈ p.registry.groups, group.key.content ≠ some ⟨8⟩ := by decide +kernel
  have hroute : p.topology.route ⟨3⟩ ⟨2⟩ = .error (.noRoute ⟨3⟩ ⟨2⟩) := by decide +kernel
  have hfails : ran.1 = .error (.noRoute ⟨3⟩ ⟨2⟩) :=
    (herror _).mpr (.inr ⟨attachment, hclient,
      fun group hmem hkey => hnew group hmem (congrArg GroupKey.content hkey), .inl hroute⟩)
  exact ⟨hfails, hsame _ hfails⟩

end Deployment

end StreamPlacement
