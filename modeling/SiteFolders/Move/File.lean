import SiteFolders.Disk.Operations
import SiteFolders.Trouble

/-!
# Moving one file

A file is moved by renaming it. If it is not there under its name, a regular file of the same
directory whose name differs only in letter case is taken instead. Where renaming fails in a way
that copying may survive, the file is copied and the source removed; if the source cannot be
removed, the copy is.
-/

namespace SiteFolders.Move

/-- A regular file in the same directory whose name is the same up to letter case. -/
def caseVariant? (d : Disk) (p : Path) : Option Path := do
  let dir ← p.parent?
  let name ← p.fileName?
  let entries ← (d.readDir dir).toOption
  let (found, _) ← entries.find? fun (n, e) => e.isFile && Text.lowercase n == Text.lowercase name
  return dir.join found

/-- The path of the file that is to be moved. -/
def source? (d : Disk) (p : Path) : Option Path :=
  if d.isOccupied p then some p else caseVariant? d p

/-- Makes the directory that a path lies in. -/
def makeParent (d : Disk) (p : Path) : Except DiskError Unit × Disk :=
  match p.parent? with
  | some dir => if dir.text.isEmpty then (.ok (), d) else d.makeDirs dir
  | none => (.ok (), d)

/-- Copies a file and removes the source. If the source stays, the copy goes. -/
def copyAcross (d : Disk) (source target : Path) : Except Trouble Unit × Disk :=
  match d.copyFile source target with
  | .error e => (.error (.failed e), d)
  | .ok copied =>
    match copied.removeFile source with
    | .ok removed => (.ok (), removed)
    | .error e =>
      match copied.removeFile target with
      | .ok undone => (.error (.failed e), undone)
      | .error _ => (.error (.failed e), copied)

/-- Renames a file, or copies it and removes the source. -/
def renameOrCopy (d : Disk) (source target : Path) : Except Trouble Unit × Disk :=
  match d.rename source target with
  | .ok renamed => (.ok (), renamed)
  | .error e =>
    if e.allowsCopy then
      match makeParent d target with
      | (.error e, made) => (.error (.failed e), made)
      | (.ok (), made) => copyAcross made ((source? made source).getD source) target
    else (.error (.failed e), d)

/-- Moves a file. -/
def moveFile (d : Disk) (source target : Path) : Except Trouble Unit × Disk :=
  match source? d source with
  | none => (.error .noSource, d)
  | some found =>
    match makeParent d target with
    | (.error e, made) => (.error (.failed e), made)
    | (.ok (), made) => renameOrCopy made found target

end SiteFolders.Move
