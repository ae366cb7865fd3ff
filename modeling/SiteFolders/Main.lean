import SiteFolders.CommandLine.Rehearsal

/-!
# The command

Runs the program on a scene from the standard input: what the program shows goes to the output
streams, and its status is the status of the command. Nothing outside the scene is touched.
-/

open SiteFolders.CommandLine

/-- All text of a stream. -/
partial def readAllText (stream : IO.FS.Stream) (found : String) : IO String := do
  let line ← stream.getLine
  if line.isEmpty then return found else readAllText stream (found ++ line)

/-- The command. A scene that cannot be read gives the status 2. -/
def main (arguments : List String) : IO UInt32 := do
  match Rehearsal.ofText (← readAllText (← IO.getStdin) "") with
  | .error line =>
    IO.eprintln s!"unreadable line: {line}"
    return 2
  | .ok scene =>
    let exit := program arguments scene.surroundings scene.disk
    let output := renderAll false exit.shown
    IO.print output.out
    IO.eprint output.err
    return exit.status.toUInt32
