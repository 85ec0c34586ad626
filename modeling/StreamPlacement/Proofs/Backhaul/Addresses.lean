import StreamPlacement.Backhaul.AddressBook
import StreamPlacement.Proofs.Container.Pairing

/-!
The books of addresses that a topology can come with.

A book is made from the topology and grows by one viewer at a time. Whatever was attached, a node
and its address determine each other.
-/

namespace StreamPlacement.AddressBook

variable {α : Type} {t : Topology α} {book book' : AddressBook}

/-- The books of a topology: the one made from it, with any viewers attached later. -/
inductive Issued (t : Topology α) : AddressBook → Prop
  | made {book : AddressBook} (h : ofTopology t = .ok book) : Issued t book
  | attached {book book' : AddressBook} {accessPoint : NodeId} {user : UserId} (h : Issued t book)
      (hattach : book.attach accessPoint = .ok (user, book')) : Issued t book'

/-! ### Attaching viewers in bulk -/

theorem Issued.attachMany (h : Issued t book) (accessPoint : NodeId) (count : Nat) :
    Issued t (AddressBook.attachMany accessPoint count book).1 := by
  induction count generalizing book with
  | zero => exact h
  | succ count ih =>
      unfold AddressBook.attachMany
      split
      · exact h
      · next hattach => exact ih (h.attached hattach)

theorem Issued.attachEach (h : Issued t book) (count : Nat) (accessPoints : List NodeId) :
    Issued t (AddressBook.attachEach count accessPoints book).1 := by
  induction accessPoints generalizing book with
  | nil => exact h
  | cons accessPoint rest ih =>
      have hfirst := h.attachMany accessPoint count
      unfold AddressBook.attachEach
      split
      · next heq =>
          rw [heq] at hfirst
          exact hfirst
      · next heq =>
          rw [heq] at hfirst
          exact ih hfirst

/-- A populated book is one of the topology's, also where not all viewers could be attached. -/
theorem Issued.populate (h : Issued t book) (count : Nat) : Issued t (book.populate count).1 := by
  unfold AddressBook.populate
  split
  · exact h
  · exact h.attachEach count _

theorem issued_of_populated (count : Nat) (h : populated t count = .ok book) : Issued t book := by
  unfold populated at h
  cases hmade : ofTopology t with
  | error fault =>
      rw [hmade] at h
      cases h
  | ok made =>
      rw [hmade] at h
      have hissued := (Issued.made hmade).populate count
      cases hpopulated : made.populate count with
      | mk grown attached =>
          rw [hpopulated] at hissued
          simp only [bind, Except.bind, hpopulated] at h
          cases attached with
          | error fault => cases h
          | ok users =>
              obtain rfl := Except.ok.inj h
              exact hissued

/-! ### Nodes and their addresses -/

/-- A viewer is put on record in its network, beside the addresses of the backhaul. -/
theorem attach_eq {accessPoint : NodeId} {user : UserId}
    (h : book.attach accessPoint = .ok (user, book')) :
    ∃ networks clients, book' = { book with networks, clients } := by
  unfold attach at h
  split at h
  · cases h
  · split at h
    · cases h
    · obtain ⟨-, rfl⟩ := Prod.mk.inj (Except.ok.inj h)
      exact ⟨_, _, rfl⟩

theorem addClientNode_eq {node : Node} (h : addClientNode t book node = .ok book') :
    ∃ networks clients, book' = { book with networks, clients } := by
  unfold addClientNode at h
  split at h
  · rw [← Except.ok.inj h]
    exact ⟨_, _, rfl⟩
  · next accessPoint _ =>
      cases hattach : book.attach accessPoint with
      | error fault =>
          rw [hattach] at h
          cases h
      | ok result =>
          obtain ⟨user, grown⟩ := result
          rw [hattach] at h
          rw [← Except.ok.inj h]
          exact attach_eq hattach

theorem addClientNodes_eq {clients : List Node}
    (h : clients.foldlM (addClientNode t) book = .ok book') :
    ∃ networks clients, book' = { book with networks, clients } := by
  induction clients generalizing book with
  | nil =>
      rw [← Except.ok.inj h]
      exact ⟨_, _, rfl⟩
  | cons node rest ih =>
      rw [List.foldlM_cons] at h
      cases hnode : addClientNode t book node with
      | error fault =>
          rw [hnode] at h
          cases h
      | ok next =>
          rw [hnode] at h
          obtain ⟨_, _, hlater⟩ := ih h
          obtain ⟨_, _, rfl⟩ := addClientNode_eq hnode
          exact ⟨_, _, hlater⟩

theorem oneToOne_of_ofTopology (h : ofTopology t = .ok book) : book.nodes.OneToOne := by
  obtain ⟨_, _, rfl⟩ := addClientNodes_eq h
  -- Links and lone nodes only ever join pairs, which keeps the pairing one to one.
  let Paired : AddressBook → Prop := fun book => book.nodes.OneToOne
  refine List.foldlRecOn (motive := Paired) _ _
    (List.foldlRecOn (motive := Paired) _ _ Pairing.oneToOne_empty ?_) ?_
  · rintro book hbook ⟨link, k⟩ -
    exact Pairing.OneToOne.join (Pairing.OneToOne.join hbook _ _) _ _
  · intro book hbook node _
    unfold addIsolated
    split
    · exact hbook
    · exact Pairing.OneToOne.join hbook _ _

theorem Issued.oneToOne (h : Issued t book) : book.nodes.OneToOne := by
  induction h with
  | made h => exact oneToOne_of_ofTopology h
  | attached _ hattach ih =>
      obtain ⟨_, _, rfl⟩ := attach_eq hattach
      exact ih

/-- The node behind the address of a node is that node. -/
theorem Issued.nodeAt?_of_nodeAddress (h : Issued t book) {node : NodeId} {address : Address}
    (haddress : book.nodeAddress node = .ok address) : book.nodeAt? address = some node := by
  unfold nodeAddress at haddress
  split at haddress
  · next hright =>
      obtain rfl := Except.ok.inj haddress
      exact h.oneToOne.left?_of_right? hright
  · cases haddress

end StreamPlacement.AddressBook
