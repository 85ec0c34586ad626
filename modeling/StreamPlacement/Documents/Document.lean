import StreamPlacement.Fault
import StreamPlacement.Json.Parse
import StreamPlacement.Json.Record

/-!
Values with a written form in data documents.
-/

namespace StreamPlacement

/-- How values are read from data documents and written into them. What is written has every field,
also those that were left to their defaults. -/
class Document (β : Type) where
  read? : Json → Option β
  write : β → Json

namespace Document

variable {β : Type} [Document β]

/-- The value that a text spells. -/
def ofText? (text : List Char) : Option β := (Json.parse? text).bind read?

/-- The value that a text spells, or a fault. -/
def ofText (text : List Char) : Except Fault β :=
  match ofText? text with
  | some value => .ok value
  | none => .error .malformedDocument

end Document

/-! ### Numbers that name things -/

namespace Id

variable {entity : Entity}

/-- The number is written bare. -/
instance : Document (Id entity) where
  read? value := (Json.word? value).map Id.mk
  write id := .natural id.index

end Id

end StreamPlacement
