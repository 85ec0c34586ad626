import StreamPlacement.Backhaul.AddressBook
import StreamPlacement.Proofs.Backhaul.Walk

/-!
What can be read off the text of an address.

The four numbers of an address are determined by its text, hence so is who has it: the position of
a link or of an access point, or the number of a node, and the number of the host.
-/

namespace StreamPlacement

theorem dot_notMem_toDigits (n : Nat) : '.' ∉ Nat.toDigits 10 n := by
  intro hmem
  have hdigit := Nat.isDigit_of_mem_toDigits (by decide) (by decide) hmem
  exact absurd hdigit (by decide)

/-- What stands in front of the first dot is determined by the whole. -/
theorem append_dot_inj {a a' b b' : List Char} (ha : '.' ∉ a) (ha' : '.' ∉ a') :
    a ++ '.' :: b = a' ++ '.' :: b' ↔ a = a' ∧ b = b' := by
  constructor
  · intro h
    induction a generalizing a' with
    | nil =>
        cases a' with
        | nil => exact ⟨rfl, (List.cons.inj h).2⟩
        | cons c tail => exact absurd ((List.cons.inj h).1 ▸ List.mem_cons_self) ha'
    | cons c rest ih =>
        cases a' with
        | nil => exact absurd ((List.cons.inj h).1 ▸ List.mem_cons_self) ha
        | cons c' tail =>
            obtain ⟨rfl, hrest⟩ := List.cons.inj h
            obtain ⟨rfl, rfl⟩ := ih (fun hmem => ha (List.mem_cons_of_mem _ hmem))
              (fun hmem => ha' (List.mem_cons_of_mem _ hmem)) hrest
            exact ⟨rfl, rfl⟩
  · rintro ⟨rfl, rfl⟩
    rfl

theorem Address.toList_dotted (a b c d : Nat) :
    (Address.dotted a b c d).toList =
      Nat.toDigits 10 a ++ '.' :: (Nat.toDigits 10 b ++ '.' :: (Nat.toDigits 10 c ++
        '.' :: Nat.toDigits 10 d)) := by
  simp [Address.dotted, Nat.repr_eq_ofList_toDigits]

/-- The four numbers can be read off the text. -/
theorem Address.dotted_inj {a b c d a' b' c' d' : Nat} :
    Address.dotted a b c d = Address.dotted a' b' c' d' ↔
      a = a' ∧ b = b' ∧ c = c' ∧ d = d' := by
  constructor
  · intro h
    have hdigits : ∀ {n n' : Nat}, Nat.toDigits 10 n = Nat.toDigits 10 n' → n = n' := by
      intro n n' hn
      rw [← Nat.ofDigitChars_ten_toDigits (n := n), hn, Nat.ofDigitChars_ten_toDigits]
    have hlist := congrArg String.toList h
    rw [toList_dotted, toList_dotted] at hlist
    obtain ⟨ha, hlist⟩ :=
      (append_dot_inj (dot_notMem_toDigits a) (dot_notMem_toDigits a')).mp hlist
    obtain ⟨hb, hlist⟩ :=
      (append_dot_inj (dot_notMem_toDigits b) (dot_notMem_toDigits b')).mp hlist
    obtain ⟨hc, hd⟩ := (append_dot_inj (dot_notMem_toDigits c) (dot_notMem_toDigits c')).mp hlist
    exact ⟨hdigits ha, hdigits hb, hdigits hc, hdigits hd⟩
  · rintro ⟨rfl, rfl, rfl, rfl⟩
    rfl

theorem Address.onLink_inj {k k' host host' : Nat} :
    Address.onLink k host = Address.onLink k' host' ↔ k = k' ∧ host = host' := by
  rw [Address.onLink, Address.onLink, Address.dotted_inj]
  constructor
  · rintro ⟨-, hdiv, hmod, rfl⟩
    exact ⟨by omega, rfl⟩
  · rintro ⟨rfl, rfl⟩
    exact ⟨rfl, rfl, rfl, rfl⟩

theorem Address.isolated_inj {node node' : NodeId} :
    Address.isolated node = Address.isolated node' ↔ node = node' := by
  rw [Address.isolated, Address.isolated, Address.dotted_inj]
  constructor
  · rintro ⟨-, -, hdiv, hmod⟩
    exact Id.index_injective (by omega)
  · rintro rfl
    exact ⟨rfl, rfl, rfl, rfl⟩

theorem Address.onAir_inj {j j' host host' : Nat} :
    Address.onAir j host = Address.onAir j' host' ↔ j = j' ∧ host = host' := by
  rw [Address.onAir, Address.onAir, Address.dotted_inj]
  constructor
  · rintro ⟨-, hdiv, hmod, rfl⟩
    exact ⟨by omega, rfl⟩
  · rintro ⟨rfl, rfl⟩
    exact ⟨rfl, rfl, rfl, rfl⟩

theorem Address.onLink_ne_isolated (k host : Nat) (node : NodeId) :
    Address.onLink k host ≠ Address.isolated node := fun heq =>
  absurd (Address.dotted_inj.mp heq).1 (by decide)

end StreamPlacement
