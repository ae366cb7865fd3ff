import SiteFolders.Disk.Operations
import SiteFolders.Reference.Moved
import SiteFolders.RunError
import SiteFolders.Settings.Basic

/-!
# Updating files

Every text file of a list is read, updated for the moved files and written back if its text has
changed. A file that cannot be read or written is noted or ends the update, as the policy says.
What has been scanned is told in either case.
-/

namespace SiteFolders.Reference

/-- How files are updated. -/
structure Options where
  looseMentions : Bool := true
  onFailure : FailurePolicy := .skip
deriving DecidableEq

/-- Updates one file, and tells whether its text has changed. -/
def updateFile (loose : Bool) (moved : List Moved) (p : Path) (d : Disk) :
    Except DiskError (Bool × Disk) := do
  let text ← d.readText p
  let dir := p.parent?.getD ⟨""⟩
  let updated := String.ofList (Reference.update loose moved dir text.toList).text
  if updated = text then return (false, d)
  else return (true, ← d.writeText p updated)

/-- What the update of a list of files did. -/
structure Summary where
  scanned : Nat := 0
  updated : List Path := []
  failed : List Skip := []

/-- The outcome of an update: what it did or why it ended, the files that were told as scanned,
and the disk. -/
structure Update where
  result : Except RunError Summary
  progress : List Path
  disk : Disk

/-- Puts a scanned file in front of what happens after it. -/
def Update.after (p : Path) (change : Summary → Summary) (r : Update) : Update :=
  { r with progress := p :: r.progress,
           result := r.result.map fun s => { change s with scanned := s.scanned + 1 } }

/-- Updates text files one after another. -/
def updateEach (o : Options) (moved : List Moved) : List Path → Disk → Update
  | [], d => ⟨.ok {}, [], d⟩
  | p :: rest, d =>
    match updateFile o.looseMentions moved p d with
    | .ok (true, after) =>
      (updateEach o moved rest after).after p fun s => { s with updated := p :: s.updated }
    | .ok (false, after) => (updateEach o moved rest after).after p id
    | .error e =>
      match o.onFailure with
      | .skip =>
        (updateEach o moved rest d).after p fun s =>
          { s with failed := ⟨p, .failed e⟩ :: s.failed }
      | .abort => ⟨.error (.update p e), [], d⟩

/-- Updates the text files of a list. -/
def updateFiles (o : Options) (moved : List Moved) (files : List Path) (d : Disk) : Update :=
  updateEach o moved (files.filter Path.isText) d

end SiteFolders.Reference
