import StreamPlacement.Text.Blank

/-!
Paths as text, with slashes between their parts. Nothing is normalised: a path is only put behind a
directory, and the directory of a path is only cut off.
-/

namespace StreamPlacement.Path

/-- Whether a path starts at the root. -/
def isAbsolute (path : String) : Bool := path.toList.head? = some '/'

/-- A path behind a directory. The empty path stands for the directory itself, with a slash. -/
def join (directory path : String) : String :=
  if isAbsolute path then path
  else if directory.isEmpty || directory.toList.getLast? = some '/' then directory ++ path
  else directory ++ "/" ++ path

/-- The parts between the slashes. -/
def parts (path : String) : List (List Char) := Text.pieces (· == '/') path.toList

/-- Parts with slashes between them; the empty part alone is the root. -/
def ofParts : List (List Char) → String
  | [[]] => "/"
  | parts => String.ofList (['/'].intercalate parts)

/-- Whether a part leads nowhere. -/
def isVoid (part : List Char) : Bool := part == [] || part == ['.']

/-- Whether a path has too many bytes to be looked up. -/
def isLong (path : String) : Bool := 4095 < path.utf8ByteSize

/-- Whether a part has too many bytes to be the name of anything. -/
def isLongPart (part : List Char) : Bool := 255 < (String.ofList part).utf8ByteSize

/-- Drops the parts at the end that lead nowhere, behind the first part. -/
def trim : List (List Char) → List (List Char)
  | [] => []
  | first :: rest => first :: (rest.reverse.dropWhile isVoid).reverse

/-- The directory of a path: the path without its last part. -/
def parent (path : String) : String := ofParts (trim (trim (parts path)).dropLast)

end StreamPlacement.Path
