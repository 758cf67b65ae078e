import Reshape.Command.Run
import Reshape.Data.Archive
import Reshape.Json.Read

/-! # The program

The program runs its command line on the archive in the file `archive.json` of the current
directory; without such a file, on an empty one. -/

namespace Reshape

/-- The archive to work on. -/
def loadArchive : IO Archive := do
  let text ← try IO.FS.readFile "archive.json" catch _ => pure "\x7b\x7d"
  match (Json.read? text).bind Archive.ofJson? with
  | some archive => return archive
  | none => throw (IO.userError "archive.json holds no archive")

end Reshape

/-- Run the command line, print what it finds and tell whether it failed. -/
def main (arguments : List String) : IO UInt32 := do
  let archive ← Reshape.loadArchive
  let outcome := Reshape.CommandLine.run archive arguments
  IO.print outcome.output
  for message in outcome.messages do
    IO.eprintln message
  return UInt32.ofNat outcome.code
