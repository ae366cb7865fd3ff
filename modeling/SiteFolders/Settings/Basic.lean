import SiteFolders.Classifier
import SiteFolders.Exclusion

/-!
# Settings

What a settings file can say, with the values that hold where it says nothing, and what follows
from settings for a run: the classifier and the exclusion rules.
-/

namespace SiteFolders

/-- The two ways to list the files of a project. -/
inductive Lister where
  /-- Going through the directories. -/
  | walk
  /-- Matching wildcards. -/
  | glob
deriving DecidableEq, Repr

/-- What happens when a text file cannot be read or written. -/
inductive FailurePolicy where
  /-- The file is noted and the run goes on. -/
  | skip
  /-- The run ends. -/
  | abort
deriving DecidableEq, Repr

/-- Directories that are never listed by default. -/
def standardSkippedDirs : List String := ["node_modules", ".git", ".vscode"]

/-- What a settings file says. The extensions are in rising order. -/
structure Settings where
  lister : Lister := .walk
  looseMentions : Bool := true
  onFailure : FailurePolicy := .skip
  skippedDirs : List String := standardSkippedDirs
  reserved : List String := []
  extensions : List (String × String) := []
  exclusion : ExclusionRules := {}

namespace Settings

/-- Adds extensions to a classifier, each with the folder of its category. -/
def addExtensions : Classifier → List (String × String) → Except SettingsError Classifier
  | c, [] => .ok c
  | c, (extension, folder) :: rest =>
    match Category.ofFolder? folder with
    | some category => addExtensions (c.map extension (some category)) rest
    | none => .error (.noSuchFolder extension folder)

/-- The classifier of a run: the standard tables, the extensions and the reserved names. -/
def classifier (s : Settings) : Except SettingsError Classifier := do
  let c ← addExtensions .standard s.extensions
  return s.reserved.foldl Classifier.reserve c

end Settings

end SiteFolders
