import StreamPlacement.Json.Parse
import StreamPlacement.Json.Render
import StreamPlacement.Text.Blank

/-!
Universally unique identifiers as text. They may be written with or without hyphens, with hyphens
also in braces or as a name, in either case; they are always written with hyphens in lower case.
-/

namespace StreamPlacement

/-- An identifier of 128 bits, as 32 hexadecimal digits. -/
structure Uuid where
  digits : List Nat
  deriving DecidableEq, Repr

namespace Uuid

/-- How many digits stand between the hyphens. -/
def groupLengths : List Nat := [8, 4, 4, 4, 12]

/-- What stands, in any case, in front of an identifier that is written as a name. -/
def nameMark : List Char := "urn:uuid:".toList

def ofDigits? (digits : List Char) : Option Uuid := (digits.mapM Json.hexValue?).map Uuid.mk

/-- The identifier that a text with hyphens spells. -/
def ofHyphenated? (text : List Char) : Option Uuid :=
  let groups := Text.pieces (· == '-') text
  if groups.map List.length = groupLengths then ofDigits? groups.flatten else none

/-- A text without the braces around it or the mark in front of it. -/
def unwrap (text : List Char) : List Char :=
  if text.head? = some '\x7b' ∧ text.getLast? = some '\x7d' then text.tail.dropLast
  else if nameMark.isPrefixOf (text.map Char.toLower) then text.drop nameMark.length
  else text

/-- The identifier that a text spells. -/
def ofText? (text : List Char) : Option Uuid :=
  if text.length = 32 then ofDigits? text else ofHyphenated? (unwrap text)

/-- Cuts a list into pieces of given lengths. -/
def cut {β : Type} : List Nat → List β → List (List β)
  | [], _ => []
  | n :: rest, xs => xs.take n :: cut rest (xs.drop n)

/-- The identifier with hyphens. -/
def text (id : Uuid) : String :=
  "-".intercalate ((cut groupLengths (id.digits.map Json.hexDigit)).map String.ofList)

end Uuid

end StreamPlacement
