import Mathlib.Data.List.Basic
import StreamPlacement.Proofs.Backhaul.Addresses
import StreamPlacement.Proofs.Container.Failing

/-!
Attaching viewers as it happens, one write after the other.

A viewer is refused before anything is written, so that a book that refuses one is as it was.
Viewers for all access points are attached one by one, and those in front of the first that is
refused stay.
-/

namespace StreamPlacement.AddressBook

/-! ### Programs -/

/-- Attaching in the order of its checks and writes. -/
def attachInPlace (accessPoint : NodeId) : ExceptT Fault (StateM AddressBook) UserId := do
  let book ← get
  match book.networks.get? accessPoint with
  | none => throw (.topology (.notAccessPoint accessPoint))
  | some network =>
    if WirelessNetwork.lastHost < network.nextHost then
      throw (.topology (.addressesExhausted accessPoint))
    else
      let user : UserId := ⟨book.clients.size⟩
      let attachment : Attachment :=
        { user, accessPoint
          address := .onAir network.position network.nextHost
          broadcast := .onAir network.position broadcastHost }
      modify fun book =>
        { book with
          networks :=
            book.networks.insert accessPoint { network with nextHost := network.nextHost + 1 } }
      modify fun book => { book with clients := book.clients.push attachment }
      pure user

/-- Attaching the same number of viewers to every access point. -/
def populateInPlace (count : Nat) : ExceptT Fault (StateM AddressBook) (List UserId) := do
  let book ← get
  liftM (reserve (book.networks.size * count) 8)
  (book.networks.keys.flatMap fun accessPoint => List.replicate count accessPoint).mapM
    attachInPlace

/-- What a viewer is answered, and the book that is left. -/
def tryAttach (book : AddressBook) (accessPoint : NodeId) : Except Fault UserId × AddressBook :=
  (attachInPlace accessPoint).run.run book

/-- A viewer that is refused leaves the book as it was. -/
theorem tryAttach_eq (book : AddressBook) (accessPoint : NodeId) :
    book.tryAttach accessPoint =
      match book.attach accessPoint with
      | .ok (user, grown) => (.ok user, grown)
      | .error fault => (.error fault, book) := by
  rw [tryAttach, attachInPlace, Failing.run_bind, Failing.run_get, attach]
  cases hnetwork : book.networks.get? accessPoint with
  | none => simp only [hnetwork]; rfl
  | some network =>
      simp only [hnetwork]
      split
      · rfl
      · simp only [Failing.run_bind, Failing.run_modify]
        rfl

theorem run_replicate (accessPoint : NodeId) (count : Nat) (book : AddressBook) :
    ((List.replicate count accessPoint).mapM attachInPlace).run.run book =
      ((attachMany accessPoint count book).2, (attachMany accessPoint count book).1) := by
  induction count generalizing book with
  | zero => rfl
  | succ count ih =>
      have hfirst : (attachInPlace accessPoint).run.run book = _ := book.tryAttach_eq accessPoint
      rw [List.replicate_succ, List.mapM_cons, Failing.run_bind, hfirst, attachMany]
      cases book.attach accessPoint with
      | error fault => rfl
      | ok attached =>
          obtain ⟨user, grown⟩ := attached
          dsimp only
          rw [Failing.run_bind, ih]
          cases (attachMany accessPoint count grown).2 <;> rfl

theorem run_flatMap (count : Nat) (accessPoints : List NodeId) (book : AddressBook) :
    ((accessPoints.flatMap fun accessPoint => List.replicate count accessPoint).mapM
        attachInPlace).run.run book =
      ((attachEach count accessPoints book).2, (attachEach count accessPoints book).1) := by
  induction accessPoints generalizing book with
  | nil => rfl
  | cons accessPoint rest ih =>
      rw [List.flatMap_cons, List.mapM_append, Failing.run_bind, run_replicate, attachEach]
      cases hmany : attachMany accessPoint count book with
      | mk grown attached =>
          cases attached with
          | error fault => rfl
          | ok users =>
              dsimp only
              rw [Failing.run_bind, ih]
              cases (attachEach count rest grown).2 <;> rfl

/-- Populating in place answers what populating answers, and leaves what that leaves. -/
theorem run_populateInPlace (count : Nat) (book : AddressBook) :
    (populateInPlace count).run.run book = ((book.populate count).2, (book.populate count).1) := by
  rw [populateInPlace, Failing.run_bind, Failing.run_get]
  dsimp only
  rw [Failing.run_bind, Failing.run_liftM, populate]
  cases reserve (book.networks.size * count) 8 with
  | error fault => rfl
  | ok _ => exact run_flatMap count _ book

/-! ### Growth -/

/-- What makes a book grow. -/
inductive Growth
  | viewer (accessPoint : NodeId)
  | everywhere (count : Nat)

/-- The book that is left, also where a viewer is refused. -/
def grow (book : AddressBook) : Growth → AddressBook
  | .viewer accessPoint => ((attachInPlace accessPoint).run.run book).2
  | .everywhere count => ((populateInPlace count).run.run book).2

def grown (book : AddressBook) (growths : List Growth) : AddressBook := growths.foldl grow book

variable {α : Type} {t : Topology α} {book : AddressBook}

theorem Issued.grow (h : Issued t book) (growth : Growth) : Issued t (book.grow growth) := by
  cases growth with
  | viewer accessPoint =>
      show Issued t (book.tryAttach accessPoint).2
      rw [tryAttach_eq]
      cases hattach : book.attach accessPoint with
      | error fault => exact h
      | ok attached => exact h.attached hattach
  | everywhere count =>
      show Issued t ((populateInPlace count).run.run book).2
      rw [run_populateInPlace]
      exact h.populate count

/-- Books that grow are still books of the topology. -/
theorem Issued.grown (h : Issued t book) (growths : List Growth) :
    Issued t (book.grown growths) := by
  induction growths generalizing book with
  | nil => exact h
  | cons growth rest ih => exact ih (h.grow growth)

end StreamPlacement.AddressBook
