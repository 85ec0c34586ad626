import StreamPlacement.Documents.Document
import StreamPlacement.Text.Utf8

/-!
Access to files. All the library asks for is the bytes behind a path, so that it can run on the
files of a machine and on files in memory alike.
-/

namespace StreamPlacement

/-- How the bytes behind a path are come by. -/
structure FileReader (m : Type → Type) where
  bytes : String → m (Except FileFault (List UInt8))

namespace FileReader

variable {m : Type → Type} [Monad m]

/-- The text of a file. -/
def text (files : FileReader m) (path : String) : ExceptT Fault m (List Char) := do
  match ← files.bytes path with
  | .error fault => throw (.file fault)
  | .ok bytes =>
    match Text.Utf8.strict? bytes with
    | some text => pure text
    | none => throw (.file .notText)

/-- The value that the document in a file spells. -/
def document {β : Type} [Document β] (files : FileReader m) (path : String) :
    ExceptT Fault m β := do
  let text ← files.text path
  match Document.ofText text with
  | .ok value => pure value
  | .error fault => throw fault

end FileReader

end StreamPlacement
