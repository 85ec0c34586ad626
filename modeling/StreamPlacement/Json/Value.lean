import StreamPlacement.Decimal.Layout

/-!
Data documents as values. Members keep their order and may repeat, because a reader of records has
to see both.
-/

namespace StreamPlacement

/-- A value of a data document. A string, also the name of a member, is nothing where its escapes
leave half of a surrogate pair, which no text contains. -/
inductive Json
  | null
  | bool (value : Bool)
  /-- A number written with digits alone. -/
  | natural (n : Nat)
  /-- Any other number. -/
  | decimal (d : Decimal)
  | string (text : Option String)
  | array (items : List Json)
  | object (members : List (Option String × Json))
  deriving Inhabited

namespace Json

/-- A string of text. -/
def ofText (text : String) : Json := .string (some text)

/-- A double by its shortest digits. What is not finite has no number. -/
def ofFloat (x : Float) : Json :=
  match Decimal.ofFloat? x .even with
  | some d => .decimal d
  | none => .null

/-- A list of values. -/
def ofList {β : Type} (write : β → Json) (values : List β) : Json := .array (values.map write)

/-- A value that may be missing. -/
def ofOption {β : Type} (write : β → Json) : Option β → Json
  | some value => write value
  | none => .null

/-- An object whose names are all text. -/
def record (members : List (String × Json)) : Json :=
  .object (members.map fun (name, value) => (some name, value))

end Json

end StreamPlacement
