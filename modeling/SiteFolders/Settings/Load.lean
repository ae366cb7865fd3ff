import SiteFolders.Disk.Operations
import SiteFolders.Settings.Decode

/-!
# Finding settings

Where the settings of a run come from: a file that the user names, else the project's own file,
else the file in the home directory, else the standard values.
-/

namespace SiteFolders.Settings

/-- The name of a project's own settings file. -/
def localName : String := ".webtidyrc.toml"

/-- The settings in a file. -/
def ofFile (d : Disk) (p : Path) : Except SettingsError Settings :=
  if d.exists? p then
    match d.readText p with
    | .ok text => ofToml text
    | .error e => .error (.unreadable e)
  else .error (.notFound p)

/-- The settings file in a home directory. -/
def homeFile (home : String) : Path :=
  (((⟨home⟩ : Path).join ".config").join "webtidy").join "config.toml"

/-- The settings of a run. -/
def load (d : Disk) (home : Option String) (named : Option Path) (root : Path) :
    Except SettingsError Settings :=
  match named with
  | some p => ofFile d p
  | none =>
    let ownFile := root.join localName
    if d.exists? ownFile then ofFile d ownFile
    else match home with
    | none => .ok {}
    | some home => if d.exists? (homeFile home) then ofFile d (homeFile home) else .ok {}

end SiteFolders.Settings
