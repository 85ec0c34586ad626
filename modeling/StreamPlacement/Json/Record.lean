import StreamPlacement.Json.Value

/-!
Reading records out of data documents.

A record is written as an object, whose members may come in any order, or as an array of its fields
in order of declaration. Members that the record does not know are left out; a field that is given
twice is a fault. A missing field is a fault unless it has a default.
-/

namespace StreamPlacement.Json

/-! ### Plain values -/

/-- A whole number of at most 64 bits, written with digits alone. -/
def word? : Json → Option Nat
  | .natural n => if n ≤ wordMax then some n else none
  | _ => none

/-- A double, if it is finite. -/
def finite? (x : Float) : Option Float :=
  match Binary64.ofFloat x with
  | .finite _ _ _ => some x
  | _ => none

/-- A number in any form that is not too large for a double. -/
def float? : Json → Option Float
  | .natural n => finite? (Decimal.toFloat ⟨false, n, 0⟩)
  | .decimal d => finite? d.toFloat
  | _ => none

def bool? : Json → Option Bool
  | .bool value => some value
  | _ => none

def text? : Json → Option String
  | .string text => text
  | _ => none

/-- An array of values of one kind. -/
def list? {β : Type} (read : Json → Option β) : Json → Option (List β)
  | .array items => items.mapM read
  | _ => none

/-- Null, or a value. -/
def nullable? {β : Type} (read : Json → Option β) : Json → Option (Option β)
  | .null => some none
  | value => (read value).map some

/-- One of some names: as a string, or as the only member of an object with nothing in it. -/
def choice? {β : Type} (choices : List (String × β)) : Json → Option β
  | .string (some name) => choices.lookup name
  | .object [(some name, .null)] => choices.lookup name
  | _ => none

/-! ### Records -/

/-- The fields of a record that were given. -/
structure Given where
  /-- Whether they were given by position. -/
  positional : Bool
  fields : List (String × Json)

/-- The members with known names, if every name is text and no known one repeats. -/
def known? (names : List String) (members : List (Option String × Json)) :
    Option (List (String × Json)) :=
  match members.mapM fun (name, value) => name.map fun name => (name, value) with
  | none => none
  | some members =>
    let fields := members.filter fun (name, _) => names.contains name
    if (fields.map Prod.fst).Nodup then some fields else none

/-- The fields that a value gives to a record with the given names. -/
def given? (names : List String) : Json → Option Given
  | .array items =>
    if items.length ≤ names.length then some ⟨true, names.zip items⟩ else none
  | .object members => (known? names members).map (⟨false, ·⟩)
  | _ => none

namespace Given

variable {β : Type}

/-- A field without a default. -/
def required (given : Given) (name : String) (read : Json → Option β) : Option β :=
  (given.fields.lookup name).bind read

/-- A field with a default. -/
def defaulted (given : Given) (name : String) (read : Json → Option β) (default : β) : Option β :=
  match given.fields.lookup name with
  | some value => read value
  | none => some default

/-- A field that may be null, and by name also missing. By position it has to be there. -/
def optional (given : Given) (name : String) (read : Json → Option β) : Option (Option β) :=
  match given.fields.lookup name with
  | some value => nullable? read value
  | none => if given.positional then none else some none

end Given

/-! ### Tagged records -/

mutual

/-- How deeply arrays and objects are nested in a value. -/
def depth : Json → Nat
  | .array items => itemsDepth items + 1
  | .object members => membersDepth members + 1
  | _ => 0

def itemsDepth : List Json → Nat
  | [] => 0
  | item :: rest => max (depth item) (itemsDepth rest)

def membersDepth : List (Option String × Json) → Nat
  | [] => 0
  | (_, value) :: rest => max (depth value) (membersDepth rest)

end

mutual

/-- Whether every string in a value is text and every number fits a double. -/
def isSound : Json → Bool
  | .natural n => (float? (.natural n)).isSome
  | .decimal d => (float? (.decimal d)).isSome
  | .string text => text.isSome
  | .array items => areSound items
  | .object members => membersAreSound members
  | _ => true

def areSound : List Json → Bool
  | [] => true
  | item :: rest => isSound item && areSound rest

def membersAreSound : List (Option String × Json) → Bool
  | [] => true
  | (name, value) :: rest => name.isSome && isSound value && membersAreSound rest

end

/-- The deepest nesting that is read where a value has to be kept until its tag is known. -/
def maxDepth : Nat := 127

/-- The tag of a tagged record and the record without it. The tag may be any member of an object,
and is the first item of an array. All of the value is looked at before the tag is known, so it must
be sound throughout and not too deep, seen from the whole document. -/
def tagged? (tagName : String) (outerDepth : Nat) (value : Json) : Option (String × Json) :=
  if !isSound value || maxDepth < outerDepth + depth value then none
  else match value with
    | .array (.string (some tag) :: items) => some (tag, .array items)
    | .object members =>
      match members.filter (·.1 == some tagName) with
      | [(_, .string (some tag))] => some (tag, .object (members.filter (·.1 != some tagName)))
      | _ => none
    | _ => none

end StreamPlacement.Json
