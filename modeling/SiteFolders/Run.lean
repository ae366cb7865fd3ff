import SiteFolders.Listing.Glob
import SiteFolders.Listing.Walk
import SiteFolders.Move.Phase
import SiteFolders.Reference.Files

/-!
# Runs

A run moves the planned files of a root into their folders and then updates the references to
them in all text files. It tells what it does through notices, in order. Nothing is undone: a file
that could not be moved is reported and the run goes on with the others.

When no file has moved, the run ends without listing anything.
-/

namespace SiteFolders

open SiteFolders.Reference (Moved)

/-- What a run depends on besides its root. -/
structure RunSetup where
  list : ListingMethod := Listing.walk standardSkippedDirs
  classifier : Classifier := .standard
  exclusion : Exclusion := {}
  references : Reference.Options := {}

/-- The listing that settings ask for. -/
def Lister.list (lister : Lister) (skipped : List String) : ListingMethod :=
  match lister with
  | .walk => Listing.walk skipped
  | .glob => Listing.glob skipped

/-- The options that settings stand for. -/
def RunSetup.ofSettings (s : Settings) : Except SettingsError RunSetup := do
  let classifier ← s.classifier
  let exclusion ← s.exclusion.read
  return {
    list := s.lister.list s.skippedDirs
    classifier
    exclusion
    references := ⟨s.looseMentions, s.onFailure⟩ }

/-- What a run tells while it goes. -/
inductive Notice where
  | success (message : String)
  | warning (message : String)
  | error (message : String)
  | info (message : String)
  | started (total : Nat)
  | scanned (path : Path)
  | finished
deriving DecidableEq

/-- What a run did. -/
structure Report where
  root : Path
  moved : List Moved := []
  skipped : List Skip := []
  scanned : Nat := 0
  updated : List Path := []
  /-- Text files that could not be read or written, and directories that could not be listed. -/
  failures : List Skip := []

/-- The folder that a moved file lies in: its place below the root up to the first slash. -/
def folderOf (file : Moved) : String :=
  String.ofList (file.newRelative.toList.takeWhile (· != '/'))

/-- Counts one more occurrence of a name. -/
def countName : List (String × Nat) → String → List (String × Nat)
  | [], name => [(name, 1)]
  | (n, k) :: rest, name => if n = name then (n, k + 1) :: rest else (n, k) :: countName rest name

/-- How often each name occurs. -/
def countNames (names : List String) : List (String × Nat) := names.foldl countName []

/-- The number of moved files in each folder. -/
def Report.folderCounts (r : Report) : List (String × Nat) := countNames (r.moved.map folderOf)

/-- The outcome of a run: its report or why it ended, what it told, and the disk. -/
structure Outcome where
  result : Except RunError Report
  notices : List Notice
  disk : Disk

/-! ## The root -/

/-- The root as an absolute path without links, if it is a directory. -/
def resolvedRoot (d : Disk) (root : Path) : Except RunError Path :=
  match d.canonical root with
  | .error e => .error (.rootMissing root e)
  | .ok canonical => if d.isDir canonical then .ok canonical else .error (.rootNotDirectory root)

/-- The moves that a run would make. -/
def plannedMoves (o : RunSetup) (root : Path) (d : Disk) : Except RunError (List Move.Planned) :=
  match resolvedRoot d root with
  | .error e => .error e
  | .ok root => Move.plan d root o.classifier o.exclusion

/-! ## The phases -/

/-- The warning about files that did not move. -/
def skipNotices (skipped : List Skip) : List Notice :=
  if skipped.isEmpty then []
  else [.warning s!"Some files were skipped (missing or locked): {skipLine skipped}"]

/-- The warning about files whose references could not be updated. -/
def failureNotices (failures : List Skip) : List Notice :=
  if failures.isEmpty then []
  else [.warning s!"References could not be updated in: {skipLine failures}"]

/-- The message about a run that has moved files. -/
def successNotice (moved updated : Nat) : Notice :=
  .success
    s!"Moved {moved} file(s) into folders and updated references in {updated} file(s)."

/-- Updates the references to the files that have moved, and completes the report. -/
def updateReferences (o : RunSetup) (report : Report) (listing : Listing) (d : Disk) :
    Outcome :=
  let total := (listing.files.filter Path.isText).length
  let update := Reference.updateFiles o.references report.moved listing.files d
  let notices := [.info s!"Updating references in {total} text file(s)...", .started total]
    ++ update.progress.map .scanned ++ [.finished]
  match update.result with
  | .error e => ⟨.error e, notices, update.disk⟩
  | .ok summary =>
    let failures := listing.unreadable ++ summary.failed
    let report := { report with
      scanned := summary.scanned, updated := summary.updated, failures }
    ⟨.ok report,
      notices ++ failureNotices failures
        ++ [successNotice report.moved.length report.updated.length],
      update.disk⟩

/-- What follows the move phase. -/
def afterMoves (o : RunSetup) (root : Path) (moves : Move.Result) (d : Disk) : Outcome :=
  let report : Report := { root, moved := moves.moved, skipped := moves.skipped }
  let warnings := skipNotices moves.skipped
  if moves.moved.isEmpty then ⟨.ok report, warnings, d⟩
  else match o.list d root with
  | .error e => ⟨.error e, warnings, d⟩
  | .ok listing =>
    let outcome := updateReferences o report listing d
    { outcome with notices := warnings ++ outcome.notices }

/-- Plans, moves and updates. -/
def runPhases (o : RunSetup) (root : Path) (d : Disk) : Outcome :=
  match resolvedRoot d root with
  | .error e => ⟨.error e, [], d⟩
  | .ok root =>
    match Move.plan d root o.classifier o.exclusion with
    | .error e => ⟨.error e, [], d⟩
    | .ok plans =>
      match Move.execute root plans d with
      | (.error e, after) => ⟨.error e, [], after⟩
      | (.ok moves, after) => afterMoves o root moves after

/-- Organizes the project at a root. A run that ends early tells why, last of all. -/
def organize (o : RunSetup) (root : Path) (d : Disk) : Outcome :=
  let outcome := runPhases o root d
  match outcome.result with
  | .ok _ => outcome
  | .error e => { outcome with
      notices := outcome.notices ++ [.error s!"Failed to organize project: {e.message}"] }

end SiteFolders
