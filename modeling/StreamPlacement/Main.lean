import StreamPlacement.CommandLine.Program

/-!
The program on the files of the machine.
-/

namespace StreamPlacement.CommandLine

/-- Why a file of the machine could not be read. -/
def machineFault : IO.Error → FileFault
  | .inappropriateType _ code _ => if code = 21 then .directory else .notDirectory
  | .invalidArgument _ code _ => if code = 22 then .nulInName else .nameTooLong
  | _ => .missing

/-- The files of the machine. -/
def machineFiles : FileReader IO where
  bytes path := do
    try
      let bytes ← IO.FS.readBinFile path
      pure (.ok bytes.toList)
    catch fault => pure (.error (machineFault fault))

/-- The journal on the machine. -/
def machineJournal : Journal IO where
  append text := do
    try
      IO.FS.createDirAll (Path.parent journalFile)
      let handle ← IO.FS.Handle.mk journalFile .append
      handle.putStr text
      pure true
    catch _ => pure false

end StreamPlacement.CommandLine

/-- Carries out the arguments and leaves their outcome to the shell. -/
def main (arguments : List String) : IO UInt32 := do
  let outcome ← StreamPlacement.CommandLine.perform StreamPlacement.CommandLine.machineFiles
    StreamPlacement.CommandLine.machineJournal arguments
  IO.print outcome.output
  match outcome.complaint with
  | some complaint => IO.eprintln complaint.text
  | none => pure ()
  pure outcome.code.toUInt32
