import StreamPlacement.Files.Memory
import StreamPlacement.Proofs.Container.Failing

/-!
What a program comes to on files in memory. The first fault ends it, and reading leaves the files as
they are.
-/

namespace StreamPlacement.MemoryFiles

variable {β γ : Type} {memory : MemoryFiles}

/-- What an action comes to on files in memory, and the files afterwards. -/
def outcome (memory : MemoryFiles) (action : ExceptT Fault (StateM MemoryFiles) β) :
    Except Fault β × MemoryFiles := action.run.run memory

theorem outcome_bind (action : ExceptT Fault (StateM MemoryFiles) β)
    (next : β → ExceptT Fault (StateM MemoryFiles) γ) :
    memory.outcome (action >>= next) =
      match memory.outcome action with
      | (.ok value, memory) => memory.outcome (next value)
      | (.error fault, memory) => (.error fault, memory) := by
  unfold outcome
  rw [Failing.run_bind]
  rcases action.run.run memory with ⟨fault | value, memory⟩ <;> rfl

/-- Nothing is reached behind an action that failed. -/
theorem of_outcome_bind {action : ExceptT Fault (StateM MemoryFiles) β}
    {next : β → ExceptT Fault (StateM MemoryFiles) γ} {result : γ}
    (h : (memory.outcome (action >>= next)).1 = .ok result) :
    ∃ value memory', (memory.outcome action).1 = .ok value ∧
      (outcome memory' (next value)).1 = .ok result := by
  rw [outcome_bind] at h
  split at h
  · next value memory' heq => exact ⟨value, memory', by rw [heq], h⟩
  · cases h

/-- What only reads one thing after another comes to what was read, and changes no file. -/
theorem outcome_bind_of_eq {action : ExceptT Fault (StateM MemoryFiles) β}
    {next : β → ExceptT Fault (StateM MemoryFiles) γ} {result : Except Fault β}
    {continued : β → Except Fault γ} (h : memory.outcome action = (result, memory))
    (hnext : ∀ value, memory.outcome (next value) = (continued value, memory)) :
    memory.outcome (action >>= next) = (result >>= continued, memory) := by
  rw [outcome_bind, h]
  cases result with
  | error fault => rfl
  | ok value => exact hnext value

theorem outcome_liftM (result : Except Fault β) :
    memory.outcome (liftM result) = (result, memory) :=
  Failing.run_liftM result memory

/-- The text of a file. -/
def text (memory : MemoryFiles) (path : String) : Except Fault (List Char) :=
  match memory.bytes path with
  | .error fault => .error (.file fault)
  | .ok bytes =>
    match Text.Utf8.strict? bytes with
    | some text => .ok text
    | none => .error (.file .notText)

theorem outcome_text (path : String) :
    memory.outcome (current.text path) = (memory.text path, memory) := by
  have hbytes : memory.outcome (liftM (current.bytes path)) =
      (.ok (memory.bytes path), memory) := rfl
  unfold FileReader.text text
  rw [outcome_bind, hbytes]
  cases memory.bytes path with
  | error fault => rfl
  | ok bytes => cases hstrict : Text.Utf8.strict? bytes <;> simp [hstrict] <;> rfl

end StreamPlacement.MemoryFiles
