import StreamPlacement.Decimal.Numeral
import StreamPlacement.Decimal.Shortest

/-!
How a double is written. The digits are the shortest that read back; a layout says where the decimal
point may stand, what a whole number looks like and how the special values are spelt.
-/

namespace StreamPlacement.Decimal

/-- The choices of one written form of doubles. -/
structure Layout where
  /-- What follows the digits of a whole number. -/
  wholeSuffix : String
  /-- The places of the first digit for which no power of ten is written: the place of `1` in `1.5`
  is one. None means all places. -/
  positional : Option (Int × Int)
  /-- Which of two equally near digits is written. -/
  tie : Tie

/-- Plain text, as in messages: all digits, never a power of ten, whole numbers without a point. -/
def Layout.plain : Layout := ⟨"", none, .up⟩

/-- Data documents: a whole number keeps a point and a zero, and a power of ten stands from
`10 ^ 16` upwards and below `10 ^ -5`. -/
def Layout.document : Layout := ⟨".0", some (-4, 16), .even⟩

/-- Digits around a decimal point whose first digit is at `place`. -/
def positionalText (wholeSuffix : String) (digits : List Char) (place : Int) : String :=
  if place ≤ 0 then
    "0." ++ String.ofList (List.replicate place.natAbs '0' ++ digits)
  else if digits.length ≤ place.toNat then
    String.ofList (digits ++ List.replicate (place.toNat - digits.length) '0') ++ wholeSuffix
  else
    String.ofList (digits.take place.toNat) ++ "." ++ String.ofList (digits.drop place.toNat)

/-- One digit in front of the point, the power of ten with its sign after the letter `e`. -/
def scientificText (digits : List Char) (place : Int) : String :=
  let fraction := digits.drop 1
  String.ofList (digits.take 1) ++ (if fraction.isEmpty then "" else "." ++ String.ofList fraction)
    ++ "e" ++ (if place ≤ 0 then "-" else "+") ++ Nat.repr (place - 1).natAbs

/-- The text of `digits * 10 ^ exponent`. -/
def Layout.magnitude (layout : Layout) (digits : Nat) (exponent : Int) : String :=
  let shown := (Nat.repr digits).toList
  let place : Int := shown.length + exponent
  match layout.positional with
  | none => positionalText layout.wholeSuffix shown place
  | some (least, greatest) =>
    if least ≤ place && place ≤ greatest then positionalText layout.wholeSuffix shown place
    else scientificText shown place

/-- A sign in front of a text. -/
def withSign (negative : Bool) (text : String) : String := if negative then "-" ++ text else text

/-- The text of a decimal. -/
def Layout.decimal (layout : Layout) (d : Decimal) : String :=
  withSign d.negative (layout.magnitude d.digits d.exponent)

/-- The shortest decimal of a double, if it is a finite number. -/
def ofFloat? (x : Float) (tie : Tie) : Option Decimal :=
  match Binary64.ofFloat x with
  | .finite negative significand exponent =>
    let (digits, place) := shortest significand exponent tie
    some ⟨negative, digits, place⟩
  | _ => none

/-- The text of a double. -/
def Layout.text (layout : Layout) (x : Float) : String :=
  match Binary64.ofFloat x with
  | .finite negative significand exponent =>
    let (digits, place) := shortest significand exponent layout.tie
    layout.decimal ⟨negative, digits, place⟩
  | .infinite negative => withSign negative "inf"
  | .notANumber => "NaN"

/-- The text of a double with exactly one digit after the point; the exact value is rounded, a half
to the even digit. -/
def oneDecimal (x : Float) : String :=
  match Binary64.ofFloat x with
  | .finite negative significand exponent =>
    let size := Binary64.magnitude significand exponent
    let tenths := roundDiv (10 * size.1) size.2 .even
    withSign negative (Nat.repr (tenths / 10) ++ "." ++ Nat.repr (tenths % 10))
  | .infinite negative => withSign negative "inf"
  | .notANumber => "NaN"

end StreamPlacement.Decimal
