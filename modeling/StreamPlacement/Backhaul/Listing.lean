import StreamPlacement.Backhaul.Topology
import StreamPlacement.Decimal.Numeral
import StreamPlacement.Text.Blank

/-!
Listings of nodes and links: one row per line, fields between blanks.

A line that is blank or starts with `#` is no row. The first row is a header if its first field is
not a whole number, and is then left out. A fault names the line it was found in.
-/

namespace StreamPlacement.Listing

/-- The fields of a row, never none of them. -/
abbrev Fields := List (List Char)

/-- The lines that are neither blank nor comments, with their numbers counted from one. -/
def contentLines (text : List Char) : List (Nat × Fields) :=
  ((Text.lines text).zipIdx 1).filterMap fun (line, number) =>
    match Text.fields line with
    | [] => none
    | ('#' :: _) :: _ => none
    | fields => some (number, fields)

/-- Whether a first row is a header. -/
def isHeader (fields : Fields) : Bool := ((fields.head?).bind Decimal.readWord?).isNone

/-- The rows with their line numbers. -/
def rows (text : List Char) : List (Nat × Fields) :=
  match contentLines text with
  | [] => []
  | first :: rest => if isHeader first.2 then rest else first :: rest

/-- Reads every row in order, up to the first fault. -/
def readRows {β : Type} (file : String) (read : Fields → Except RowFault β) :
    List (Nat × Fields) → Except Fault (List β)
  | [] => .ok []
  | (line, fields) :: rest =>
    match read fields with
    | .error fault => .error (.row file line fault)
    | .ok row => (readRows file read rest).map (row :: ·)

/-- The field in some position, read as `read` says. -/
def field {β : Type} (read : List Char → Option β) (name : String) (fields : Fields)
    (position : Nat) : Except RowFault β :=
  match fields[position]? with
  | none => .error (.missingField name)
  | some text =>
    match read text with
    | some value => .ok value
    | none => .error (.invalidField name (String.ofList text))

/-- A number of seconds, with any number of letters `s` behind it. -/
def readSeconds? (text : List Char) : Option Float :=
  Decimal.readFloat? (text.reverse.dropWhile (· == 's')).reverse

/-- Whether a field says yes, in any case. -/
def isYes (text : List Char) : Bool := text.map Char.toLower == ['y', 'e', 's']

/-! ### Nodes -/

/-- The player in a client row: `logic start-up-delay downscale upscale max-buffered` behind the
first two fields. -/
def readPlayer (fields : Fields) : Except RowFault PlayerProfile :=
  if fields.length < 7 then .error (.shortClient fields.length)
  else do
    let startUpDelay ← field readSeconds? "start-up delay" fields 3
    let maxBuffered ← field readSeconds? "max buffered seconds" fields 6
    pure
      { startUpDelay, maxBuffered
        adaptationLogic := String.ofList (fields[2]?.getD [])
        allowDownscale := isYes (fields[4]?.getD [])
        allowUpscale := isYes (fields[5]?.getD []) }

/-- A row `id kind`, with a player behind it in the row of a client. -/
def readNode (fields : Fields) : Except RowFault Node := do
  let index ← field Decimal.readWord? "node id" fields 0
  let kind ← match fields[1]? with
    | none => throw .missingKind
    | some tag =>
      match NodeKind.ofTag? (String.ofList tag) with
      | some kind => pure kind
      | none => throw (.unknownKind (String.ofList tag))
  if kind == .client && 2 < fields.length then do
    let player ← readPlayer fields
    pure { id := ⟨index⟩, kind, player := some player }
  else pure { id := ⟨index⟩, kind }

/-- The first position at which some numbers in ascending order are not those from zero on. -/
def firstGap? (sorted : List Nat) : Option Nat :=
  (sorted.zipIdx.find? fun (number, position) => number ≠ position).map Prod.snd

/-- The nodes of a listing, in the order of its rows. Their numbers must be those from zero on. -/
def nodes (file : String) (text : List Char) : Except Fault (List Node) := do
  let nodes ← readRows file readNode (rows text)
  match firstGap? (sortByKey id (nodes.map (·.id.index))) with
  | some position => throw (.topology (.sparseIds file position))
  | none => pure nodes

/-! ### Links -/

/-- A row `source destination rate delay loss buffer`. -/
def readLink (fields : Fields) : Except RowFault (Link Float) :=
  if fields.length < 6 then .error (.shortLink fields.length)
  else do
    let src ← field Decimal.readWord? "source" fields 0
    let dst ← field Decimal.readWord? "destination" fields 1
    let rate ← field Decimal.readFloat? "rate" fields 2
    let delay ← field Decimal.readFloat? "delay" fields 3
    let loss ← field Decimal.readFloat? "loss" fields 4
    let buffer ← field Decimal.readFloat? "buffer size" fields 5
    if rate ≤ 0 then throw (.rateNotPositive rate)
    else if 0 ≤ loss && loss ≤ 1 then
      pure { src := ⟨src⟩, dst := ⟨dst⟩, rate, delay, loss, bufferSize := bufferSize buffer }
    else throw (.lossOutside loss)
where
  /-- A buffer size is a whole number of at most 32 bits. -/
  bufferSize (buffer : Float) : Nat := min (Nat.pow 2 32 - 1) (Quantity.truncate buffer)

/-- The links of a listing, in the order of its rows. -/
def links (file : String) (text : List Char) : Except Fault (List (Link Float)) :=
  readRows file readLink (rows text)

/-- The topology over the nodes and links of two listings. -/
def topology (unit : Float) (nodes : List Node) (links : List (Link Float)) :
    Except Fault (Topology Float) :=
  { Topology.empty unit with nodes, links }.build nodes.length

end StreamPlacement.Listing
