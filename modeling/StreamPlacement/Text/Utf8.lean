/-!
Bytes as text in UTF-8. Decoding goes through the bytes one by one; what belongs to no character is
set apart as malformed pieces, so that a strict reader can refuse the text and a lenient one can go
on behind each piece.
-/

namespace StreamPlacement.Text.Utf8

/-- A character of which not all bytes have been seen: its value so far, the range that the next
byte must be in, and the number of bytes that follow that one. -/
structure Pending where
  value : Nat
  least : Nat
  greatest : Nat
  more : Nat

/-- What the first byte of a character promises. The ranges leave out spellings that are longer than
they need to be, halves of surrogate pairs, and values beyond the last code point. -/
def Pending.ofFirst? (byte : Nat) : Option Pending :=
  if byte < 0xc2 then none
  else if byte < 0xe0 then some ⟨byte - 0xc0, 0x80, 0xbf, 0⟩
  else if byte < 0xf0 then
    some ⟨byte - 0xe0, if byte = 0xe0 then 0xa0 else 0x80, if byte = 0xed then 0x9f else 0xbf, 1⟩
  else if byte < 0xf5 then
    some ⟨byte - 0xf0, if byte = 0xf0 then 0x90 else 0x80, if byte = 0xf4 then 0x8f else 0xbf, 2⟩
  else none

/-- What a byte between two characters makes: pieces, and a character that it begins. A piece is a
character, or nothing where bytes are malformed. -/
def start (byte : Nat) : List (Option Char) × Option Pending :=
  if byte < 0x80 then ([some (Char.ofNat byte)], none)
  else match Pending.ofFirst? byte with
    | some pending => ([], some pending)
    | none => ([none], none)

/-- What a byte makes of a pending character. One that does not go on is a malformed piece, and the
byte then stands between two characters. -/
def proceed (pending : Pending) (byte : Nat) : List (Option Char) × Option Pending :=
  if pending.least ≤ byte ∧ byte ≤ pending.greatest then
    let value := 64 * pending.value + (byte - 0x80)
    match pending.more with
    | 0 => ([some (Char.ofNat value)], none)
    | more + 1 => ([], some ⟨value, 0x80, 0xbf, more⟩)
  else
    let (pieces, pending) := start byte
    (none :: pieces, pending)

/-- The pieces of some bytes, the first of which may go on with a pending character. -/
def decodeFrom : Option Pending → List UInt8 → List (Option Char)
  | none, [] => []
  | some _, [] => [none]
  | pending, byte :: rest =>
    let (pieces, pending) := match pending with
      | none => start byte.toNat
      | some pending => proceed pending byte.toNat
    pieces ++ decodeFrom pending rest

/-- The pieces of some bytes. -/
def decode (bytes : List UInt8) : List (Option Char) := decodeFrom none bytes

/-- The text that bytes spell, if they are well formed throughout. -/
def strict? (bytes : List UInt8) : Option (List Char) := (decode bytes).mapM id

/-- What stands for a malformed piece. -/
def replacement : Char := '\ufffd'

/-- The text that bytes spell, with a replacement for every malformed piece. -/
def lenient (bytes : List UInt8) : List Char := (decode bytes).map (·.getD replacement)

/-- Plain bytes are read as they stand. -/
theorem decode_cons_of_lt {byte : UInt8} (h : byte.toNat < 0x80) (rest : List UInt8) :
    decode (byte :: rest) = some (Char.ofNat byte.toNat) :: decode rest := by
  simp [decode, decodeFrom, start, h]

example : strict? [0x41, 0xc3, 0xa9, 0xf0, 0x9f, 0x98, 0x80] = some ['A', 'é', '😀'] := by decide
example : lenient [0xf0, 0x9f, 0x41, 0xed, 0xa0] = ['\ufffd', 'A', '\ufffd', '\ufffd'] := by decide

end StreamPlacement.Text.Utf8
