import SiteFolders.CommandLine.Program

/-!
# Rehearsals

A rehearsal is a written scene for the program: a tree of files and what else the program takes
from its surroundings. The scene is a text of lines, each with a word and then its parts, all
separated by tabs:

* `dir`, with a path: a directory;
* `file`, with a path and a text: a regular file;
* `link`, with a path and a target: a symbolic link;
* `home`, with a path: the home directory;
* `time`, with a text: the time at which the run starts;
* `confirm`: the answer to the question whether files may be moved is yes.

In the text of a file, `\n`, `\t` and `\\` stand for a line end, a tab and a backslash. Parents that
are missing are made, and a line without any text is passed over.
-/

namespace SiteFolders.CommandLine

/-- What the program is run on. -/
structure Rehearsal where
  disk : Disk := { entries := [] }
  surroundings : Surroundings := {}

namespace Rehearsal

/-- The text that stands for itself apart from escapes. -/
def unescape : List Char → List Char
  | '\\' :: 'n' :: rest => '\n' :: unescape rest
  | '\\' :: 't' :: rest => '\t' :: unescape rest
  | '\\' :: '\\' :: rest => '\\' :: unescape rest
  | c :: rest => c :: unescape rest
  | [] => []

/-- The disk with the directory that a path lies in. -/
def withParent (d : Disk) (p : Path) : Disk :=
  match p.parent? with
  | some dir => (d.makeDirs dir).2
  | none => d

/-- The disk with a symbolic link at a path. -/
def putLink (d : Disk) (p : Path) (target : String) : Except DiskError Disk := do
  match ← d.slot p with
  | (dir, some name) => return d.put (name :: dir) (.link target)
  | (_, none) => throw .alreadyExists

/-- The rehearsal with another disk, if there is one. -/
def withDisk? (r : Rehearsal) (disk : Except DiskError Disk) : Option Rehearsal :=
  disk.toOption.map fun disk => { r with disk }

/-- Adds a line to a rehearsal; none if the line means nothing or cannot be added. -/
def addLine? (r : Rehearsal) (line : String) : Option Rehearsal :=
  match line.splitOn "\t" with
  | [""] => some r
  | ["dir", path] =>
    match r.disk.makeDirs ⟨path⟩ with
    | (.ok (), disk) => some { r with disk }
    | (.error _, _) => none
  | ["file", path, text] =>
    r.withDisk? ((withParent r.disk ⟨path⟩).writeText ⟨path⟩
      (String.ofList (unescape text.toList)))
  | ["link", path, target] => r.withDisk? (putLink (withParent r.disk ⟨path⟩) ⟨path⟩ target)
  | ["home", path] => some { r with surroundings.home := some path }
  | ["time", text] => some { r with surroundings.now := text }
  | ["confirm"] => some { r with surroundings.confirmed := true }
  | _ => none

/-- Adds lines to a rehearsal; the error is the first line that cannot be added. -/
def addLines : Rehearsal → List String → Except String Rehearsal
  | r, [] => .ok r
  | r, line :: rest =>
    match r.addLine? line with
    | some r => r.addLines rest
    | none => .error line

/-- The rehearsal that a text describes. -/
def ofText (text : String) : Except String Rehearsal := addLines {} (text.splitOn "\n")

end Rehearsal

end SiteFolders.CommandLine
