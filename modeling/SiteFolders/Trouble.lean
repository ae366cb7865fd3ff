import SiteFolders.Disk.Error
import SiteFolders.Path

/-!
# Trouble with single files

A run goes on when one file cannot be moved, updated or listed; it notes the path and the cause.
-/

namespace SiteFolders

/-- Why a file or a directory was passed over. -/
inductive Trouble where
  /-- There is no file to move, not even under a name in other letter case. -/
  | noSource
  /-- A file could not be moved or updated. -/
  | failed (error : DiskError)
  /-- Going through the tree stopped at a path. -/
  | walking (path : Path) (error : DiskError)
  /-- A directory could not be read for matching. -/
  | matching (error : DiskError)
deriving DecidableEq

/-- What is said about a cause. -/
def Trouble.reason : Trouble → String
  | noSource => "source missing"
  | failed error => error.report
  | walking path error => s!"IO error for operation on {path.text}: {error.message}"
  | matching error => error.message

/-- A file or directory that was passed over. -/
structure Skip where
  path : Path
  cause : Trouble
deriving DecidableEq

/-- The short name by which a skip is reported: the file name where there is one. -/
def Skip.label (s : Skip) : String := s.path.fileName?.getD s.path.text

/-- A list of skips on one line. -/
def skipLine (skips : List Skip) : String :=
  ", ".intercalate (skips.map fun s => s!"{s.label} [{s.cause.reason}]")

end SiteFolders
