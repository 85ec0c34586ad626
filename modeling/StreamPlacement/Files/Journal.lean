import StreamPlacement.Files.Reader

/-!
A file that grows line by line while the program works.
-/

namespace StreamPlacement

/-- How text comes to the end of a file. -/
structure Journal (m : Type → Type) where
  /-- Adds a text, and makes the file with its directories if there is none. The answer says whether
  that is possible. -/
  append : String → m Bool

namespace Journal

variable {m : Type → Type} [Monad m]

/-- Makes the file, if it is not there, and adds nothing. -/
def start (journal : Journal m) : m Bool := journal.append ""

/-- Adds a line, where that is possible. -/
def tell (journal : Journal m) (line : String) : m Unit := do
  let _ ← journal.append (line ++ "\n")

end Journal

end StreamPlacement
