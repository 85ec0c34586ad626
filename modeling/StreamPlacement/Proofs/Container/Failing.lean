import StreamPlacement.Fault

/-!
Programs over a state that may fail. What comes after a fault is not done, and what came before it
is not undone.
-/

namespace StreamPlacement.Failing

variable {σ β γ : Type}

theorem run_bind (program : ExceptT Fault (StateM σ) β) (next : β → ExceptT Fault (StateM σ) γ)
    (s : σ) :
    (program >>= next).run.run s =
      match program.run.run s with
      | (.ok value, s) => (next value).run.run s
      | (.error fault, s) => (.error fault, s) := by
  show (ExceptT.bindCont next (program.run.run s).1).run (program.run.run s).2 = _
  rcases program.run.run s with ⟨fault | value, s⟩ <;> rfl

theorem run_get (s : σ) : (get : ExceptT Fault (StateM σ) σ).run.run s = (.ok s, s) := rfl

theorem run_modify (change : σ → σ) (s : σ) :
    (modify change : ExceptT Fault (StateM σ) PUnit).run.run s = (.ok ⟨⟩, change s) := rfl

theorem run_liftM (result : Except Fault β) (s : σ) :
    (liftM result : ExceptT Fault (StateM σ) β).run.run s = (result, s) := by
  cases result <;> rfl

end StreamPlacement.Failing
