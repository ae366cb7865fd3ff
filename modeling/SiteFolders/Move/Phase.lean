import SiteFolders.Move.Destination
import SiteFolders.Move.File
import SiteFolders.Move.Plan
import SiteFolders.Reference.Moved

/-!
# The move phase

The planned files are moved one after another. A file that cannot be moved is passed over; only
a folder that cannot be made ends the phase.
-/

namespace SiteFolders.Move

open SiteFolders.Reference (Moved)

/-- What the move phase did. -/
structure Result where
  moved : List Moved := []
  skipped : List Skip := []

/-- What happened to one planned file. -/
inductive Step where
  | moved (file : Moved)
  | skipped (skip : Skip)
  /-- The file is where it belongs. -/
  | stayed

/-- Adds a step to the result of the steps after it. -/
def Result.add (step : Step) (r : Result) : Result :=
  match step with
  | .moved file => { r with moved := file :: r.moved }
  | .skipped skip => { r with skipped := skip :: r.skipped }
  | .stayed => r

/-- Moves one planned file into its folder. -/
def moveOne (root : Path) (p : Planned) (d : Disk) : Except RunError Step × Disk :=
  let folder := root.join p.category.folder
  match destination d folder p.fileName with
  | (.error e, made) => (.error (.folderNotMade folder e), made)
  | (.ok target, made) =>
    if target.same p.source then (.ok .stayed, made)
    else match moveFile made p.source target with
    | (.ok (), after) => (.ok (.moved ⟨p.fileName, Path.below root target, target⟩), after)
    | (.error cause, after) => (.ok (.skipped ⟨p.source, cause⟩), after)

/-- Moves all planned files in order. -/
def execute (root : Path) : List Planned → Disk → Except RunError Result × Disk
  | [], d => (.ok {}, d)
  | p :: rest, d =>
    match moveOne root p d with
    | (.error e, after) => (.error e, after)
    | (.ok step, after) =>
      match execute root rest after with
      | (.error e, last) => (.error e, last)
      | (.ok r, last) => (.ok (r.add step), last)

end SiteFolders.Move
