import StreamPlacement.Files.Journal
import StreamPlacement.Files.Path

/-!
Files in memory: a list of names with contents. A name with slashes implies its directories. Outside
of the directory that holds the files there are directories too, up to the root, but nothing in them
is known by name.
-/

namespace StreamPlacement

/-- Names, cut at their slashes, with contents. -/
structure MemoryFiles where
  files : List (List (List Char) × List UInt8)

namespace MemoryFiles

/-- The name that a path inside is, without the parts that lead nowhere. -/
def nameOf (path : String) : List (List Char) := (Path.parts path).filter (!Path.isVoid ·)

/-- Some files under their names. -/
def ofList (files : List (String × List UInt8)) : MemoryFiles :=
  ⟨files.map fun (name, bytes) => (nameOf name, bytes)⟩

/-- Whether a file's name implies a directory. -/
def isDirectory (memory : MemoryFiles) (directory : List (List Char)) : Bool :=
  directory.isEmpty || memory.files.any fun (name, _) =>
    directory.isPrefixOf name && directory.length < name.length

/-- What a path leads to. -/
inductive Place
  | directory (parts : List (List Char))
  /-- A directory outside. -/
  | outside
  | file (bytes : List UInt8)

/-- The part of a path that leads one directory up; the root is above itself. -/
def up : List Char := ['.', '.']

/-- Follows the parts of a path from a place. Every part but the first leads on only from a
directory. -/
def follow (memory : MemoryFiles) : Place → List (List Char) → Except FileFault Place
  | place, [] => .ok place
  | .file _, _ :: _ => .error .notDirectory
  | .outside, part :: rest =>
    if Path.isVoid part || part = up then follow memory .outside rest
    else if Path.isLongPart part then .error .nameTooLong
    else .error .missing
  | .directory here, part :: rest =>
    if Path.isVoid part then follow memory (.directory here) rest
    else if part = up then
      follow memory (if here.isEmpty then .outside else .directory here.dropLast) rest
    else if Path.isLongPart part then .error .nameTooLong
    else
      let there := here ++ [part]
      match memory.files.lookup there with
      | some bytes => follow memory (.file bytes) rest
      | none =>
        if memory.isDirectory there then follow memory (.directory there) rest
        else .error .missing

/-- The bytes behind a path. -/
def bytes (memory : MemoryFiles) (path : String) : Except FileFault (List UInt8) :=
  if path.toList.contains '\x00' then .error .nulInName
  else if path.isEmpty then .error .missing
  else if Path.isLong path then .error .nameTooLong
  else
    let start := if Path.isAbsolute path then .outside else .directory []
    match memory.follow start (Path.parts path) with
    | .error fault => .error fault
    | .ok (.file bytes) => .ok bytes
    | .ok _ => .error .directory

/-- The files with some bytes at the end of one of them, which is made if it is not there. Nothing
can be added to a directory, nor behind a file. -/
def append? (memory : MemoryFiles) (path : String) (bytes : List UInt8) : Option MemoryFiles :=
  let name := nameOf path
  let blocked := memory.files.any fun (other, _) => other.isPrefixOf name && other ≠ name
  if memory.isDirectory name || blocked then none
  else
    let before := (memory.files.lookup name).getD []
    some ⟨(name, before ++ bytes) :: memory.files.filter (·.1 ≠ name)⟩

/-- Access to the files, in any program. -/
def reader {m : Type → Type} [Monad m] (memory : MemoryFiles) : FileReader m :=
  ⟨fun path => pure (memory.bytes path)⟩

/-- Access to files that are the state of a program. -/
def current : FileReader (StateM MemoryFiles) := ⟨fun path => do pure ((← get).bytes path)⟩

/-- A file as a journal, where the files are the state of a program. -/
def journal (path : String) : Journal (StateM MemoryFiles) where
  append text := modifyGet fun memory =>
    match memory.append? path text.toUTF8.toList with
    | some memory => (true, memory)
    | none => (false, memory)

end MemoryFiles

end StreamPlacement
