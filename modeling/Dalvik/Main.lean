import Dalvik.CommandLine

/-!
# The program

Files are read and written here; what is to be written is decided elsewhere.
-/

open Dalvik

def perform : Action → IO Unit
  | .print line => IO.println line
  | .save directory name contents => do
      IO.FS.createDirAll directory
      IO.FS.writeFile (directory ++ "/" ++ name) contents

def runCommand (command : Command) : IO UInt32 := do
  let text ← IO.FS.readFile command.input
  match command.report text with
  | .error fault => do
      IO.eprintln ("Error: " ++ fault.message)
      return 1
  | .ok report => do
      report.actions.forM perform
      return if report.failed then 1 else 0

def main (args : List String) : IO UInt32 := do
  match Command.read args with
  | .error fault => do
      IO.eprintln ("error: " ++ fault.message)
      return fault.exitCode
  | .ok command =>
      try runCommand command
      catch error => do
        IO.eprintln ("Error: " ++ toString error)
        return 1
