import SiteFolders.Exclusion
import SiteFolders.Trouble

/-!
# Errors that end a run
-/

namespace SiteFolders

/-- Why a run ends early. -/
inductive RunError where
  /-- The root does not lead to anything. -/
  | rootMissing (path : Path) (error : DiskError)
  /-- The root is no directory. -/
  | rootNotDirectory (path : Path)
  | rootUnreadable (path : Path) (error : DiskError)
  | folderNotMade (path : Path) (error : DiskError)
  | list (path : Path) (cause : Trouble)
  | update (path : Path) (error : DiskError)
  | settings (error : SettingsError)

/-- What is said about an error. -/
def RunError.message : RunError → String
  | .rootMissing path error => s!"Invalid project root {path.text}: {error.message}"
  | .rootNotDirectory path => s!"Invalid project root {path.text}: not a directory"
  | .rootUnreadable path error => s!"Failed to read directory {path.text}: {error.message}"
  | .folderNotMade path error => s!"Failed to create directory {path.text}: {error.message}"
  | .list path cause => s!"Failed to list project files under {path.text}: {cause.reason}"
  | .update path error => s!"Failed to rewrite references in {path.text}: {error.message}"
  | .settings error => error.message

end SiteFolders
