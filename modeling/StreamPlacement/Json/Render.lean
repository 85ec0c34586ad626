import StreamPlacement.Json.Value

/-!
Writing data documents: in one line, or spread over lines with one more indentation at every level.
-/

namespace StreamPlacement.Json

/-- A hexadecimal digit. -/
def hexDigit (n : Nat) : Char := if n < 10 then Char.ofNat (48 + n) else Char.ofNat (87 + n)

/-- A character as it is written between quotes. -/
def escape (c : Char) : List Char :=
  if c == '"' then ['\\', '"']
  else if c == '\\' then ['\\', '\\']
  else if c == '\x08' then ['\\', 'b']
  else if c == '\x0c' then ['\\', 'f']
  else if c == '\n' then ['\\', 'n']
  else if c == '\r' then ['\\', 'r']
  else if c == '\t' then ['\\', 't']
  else if c.toNat < 0x20 then
    ['\\', 'u', '0', '0', hexDigit (c.toNat / 16), hexDigit (c.toNat % 16)]
  else [c]

/-- A text between quotes. -/
def quote (text : String) : List Char := '"' :: text.toList.flatMap escape ++ ['"']

/-- How the parts of a document are set apart. -/
structure Style where
  /-- What stands in front of every item at some depth. -/
  breakAt : Nat → List Char
  /-- What stands behind the colon of a member. -/
  afterColon : List Char

/-- Everything in one line. -/
def Style.compact : Style := ⟨fun _ => [], []⟩

/-- Every item on a line of its own, indented by two spaces per level. -/
def Style.spread : Style := ⟨fun depth => '\n' :: List.replicate (2 * depth) ' ', [' ']⟩

/-- Items between brackets, commas between them. -/
def enclose (style : Style) (depth : Nat) (opening closing : Char) (items : List (List Char)) :
    List Char :=
  if items.isEmpty then [opening, closing]
  else
    opening :: [','].intercalate (items.map (style.breakAt (depth + 1) ++ ·))
      ++ style.breakAt depth ++ [closing]

mutual

/-- The text of a value at some depth. -/
def render (style : Style) (depth : Nat) : Json → List Char
  | .null => ['n', 'u', 'l', 'l']
  | .bool true => ['t', 'r', 'u', 'e']
  | .bool false => ['f', 'a', 'l', 's', 'e']
  | .natural n => (Nat.repr n).toList
  | .decimal d => (Decimal.Layout.document.decimal d).toList
  | .string text => quote (text.getD "")
  | .array items => enclose style depth '[' ']' (renderItems style (depth + 1) items)
  | .object members => enclose style depth '{' '}' (renderMembers style (depth + 1) members)

def renderItems (style : Style) (depth : Nat) : List Json → List (List Char)
  | [] => []
  | item :: rest => render style depth item :: renderItems style depth rest

def renderMembers (style : Style) (depth : Nat) :
    List (Option String × Json) → List (List Char)
  | [] => []
  | (name, value) :: rest =>
    (quote (name.getD "") ++ ':' :: style.afterColon ++ render style depth value)
      :: renderMembers style depth rest

end

/-- The text of a document. -/
def text (style : Style) (value : Json) : String := String.ofList (render style 0 value)

end StreamPlacement.Json
