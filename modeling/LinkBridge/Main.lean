import LinkBridge.Cli.Session

/-!
# LinkBridge.Main

The program: reads the files a command line names, lets the session decide, and prints.
-/

open LinkBridge.Cli in
/-- Entry point of the command line. -/
def main (arguments : List String) : IO UInt32 := do
  let command := Command.ofArguments arguments
  let mut contents : List (String × ByteArray) := []
  for path in command.paths do
    try
      contents := (path, ← IO.FS.readBinFile path) :: contents
    catch _ => pure ()
  let files := contents
  let outcome := command.perform fun path => files.lookup path
  for line in outcome.output do
    IO.println line
  for line in outcome.errors do
    IO.eprintln line
  return UInt32.ofNat outcome.status
