import StreamPlacement.Proofs.Solver.Arguments

/-!
What a labelled number tells: the kind of thing that it names, and the number itself.
-/

namespace StreamPlacement

/-- The labels of the kinds begin with different letters. -/
theorem Entity.eq_of_head?_label {kind other : Entity}
    (h : kind.label.toList.head? = other.label.toList.head?) : kind = other := by
  revert h
  cases kind <;> cases other <;> decide

namespace Id

theorem text_injective {entity : Entity} {a b : Id entity} (h : a.text = b.text) : a = b := by
  have hnumbers : Decimal.natural? a.text.toList = Decimal.natural? b.text.toList := by rw [h]
  rw [text, text, Decimal.natural?_repr, Decimal.natural?_repr] at hnumbers
  obtain ⟨index⟩ := a
  exact congrArg Id.mk (Option.some.inj hnumbers)

/-- In labelled form no two things look alike, of whatever kinds they are. -/
theorem labelled_eq_iff {kind other : Entity} {a : Id kind} {b : Id other} :
    a.labelled = b.labelled ↔ kind = other ∧ a.index = b.index := by
  constructor
  · intro h
    have hfirst : ∀ {entity : Entity} (id : Id entity),
        id.labelled.toList.head? = entity.label.toList.head? := by
      intro entity id
      rw [labelled, String.toList_append, String.toList_append]
      cases entity <;> rfl
    obtain rfl : kind = other :=
      Entity.eq_of_head?_label (by rw [← hfirst a, ← hfirst b, h])
    exact ⟨rfl, congrArg Id.index (text_injective ((String.append_right_inj _).mp h))⟩
  · rintro ⟨rfl, hindex⟩
    rw [labelled, labelled, text, text, hindex]

end Id

end StreamPlacement
