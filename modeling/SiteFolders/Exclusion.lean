import SiteFolders.Disk.Error
import SiteFolders.Path
import SiteFolders.Regex.Parser
import SiteFolders.Wildcard

/-!
# Exclusion

Rules that keep files at the root where they are: by exact name, by extension, by wildcard and by
regular expression. The rules are read once (`ExclusionRules.read`), the wildcards before the
expressions, and then asked for each file (`Exclusion.admits`). More rules admit fewer files.
-/

namespace SiteFolders

/-- Why settings cannot be used. -/
inductive SettingsError where
  | notFound (path : Path)
  | invalid (reason : String)
  | invalidWildcard (pattern : String)
  | invalidRegex (pattern : String) (fault : Regex.Fault)
  | noSuchFolder (extension category : String)
  | unreadable (error : DiskError)

/-- What is said about an error in the settings. -/
def SettingsError.message : SettingsError → String
  | .notFound path => s!"Configuration file not found: {path.text}"
  | .invalid reason => s!"Invalid configuration: {reason}"
  | .invalidWildcard pattern =>
    s!"Invalid glob pattern \x27{pattern}\x27: expected *.ext or dir/**"
  | .invalidRegex pattern fault => s!"Invalid regex pattern \x27{pattern}\x27: {fault.message}"
  | .noSuchFolder extension category =>
    s!"Unknown category \x27{category}\x27 for extension \x27{extension}\x27"
  | .unreadable error => s!"IO error reading configuration: {error.message}"

/-- The rules as they are written. -/
structure ExclusionRules where
  filenames : List String := []
  patterns : List String := []
  extensions : List String := []
  regex : List String := []
deriving DecidableEq

/-- The rules ready to be asked. -/
structure Exclusion where
  names : List String := []
  extensions : List String := []
  wildcards : List Wildcard := []
  regexes : List Regex := []

/-- Reads the rules. -/
def ExclusionRules.read (rules : ExclusionRules) : Except SettingsError Exclusion := do
  let wildcards ← rules.patterns.mapM fun pattern =>
    match Wildcard.parse? pattern with
    | some w => pure w
    | none => throw (SettingsError.invalidWildcard pattern)
  let regexes ← rules.regex.mapM fun pattern =>
    match Regex.parse pattern with
    | .ok r => pure r
    | .error fault => throw (SettingsError.invalidRegex pattern fault)
  return {
    names := rules.filenames
    extensions := rules.extensions.map fun e =>
      Text.lowercase (String.ofList (e.toList.dropWhile (· == '.')))
    wildcards
    regexes }

namespace Exclusion

/-- True if a rule names this file. Wildcards and expressions are held against the file name. -/
def matchesFile (x : Exclusion) (p : Path) : Bool :=
  let name := p.fileName?.getD ""
  x.names.contains name
    || p.lowerExtension?.any x.extensions.contains
    || x.wildcards.any (·.accepts false name.toList)
    || x.regexes.any (·.occurs none name.toList)

/-- True of files that no rule keeps in place. -/
def admits (x : Exclusion) (p : Path) : Bool := !x.matchesFile p

end Exclusion

end SiteFolders
