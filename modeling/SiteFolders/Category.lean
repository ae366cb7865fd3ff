import SiteFolders.Text.Lowercase

/-!
# Categories

The folders that files are sorted into. A file that stays where it is has no category, so where
one may be missing the type is `Option Category`.
-/

namespace SiteFolders

/-- A folder for one kind of file. -/
inductive Category where
  | css
  | js
  | img
  | video
  | audio
  | fonts
  | data
  | files
  | includes
deriving DecidableEq, Repr

namespace Category

/-- All categories. -/
def all : List Category := [css, js, img, video, audio, fonts, data, files, includes]

/-- The name of the category's folder. -/
def folder : Category → String
  | css => "css"
  | js => "js"
  | img => "img"
  | video => "video"
  | audio => "audio"
  | fonts => "fonts"
  | data => "data"
  | files => "files"
  | includes => "includes"

/-- What the category holds, for readers. -/
def description : Category → String
  | css => "Stylesheets"
  | js => "Scripts"
  | img => "Images"
  | video => "Video files"
  | audio => "Audio files"
  | fonts => "Fonts"
  | data => "Data files"
  | files => "Other files"
  | includes => "PHP includes"

/-- The category of a folder name in any letter case. -/
def ofFolder? (name : String) : Option Category :=
  all.find? fun c => c.folder == Text.lowercase name

end Category

/-- What readers are told about a file's category, also when it stays in place. -/
def describe : Option Category → String
  | some c => c.description
  | none => "Left in place"

end SiteFolders
