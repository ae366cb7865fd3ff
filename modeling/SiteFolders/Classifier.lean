import SiteFolders.Category
import SiteFolders.FileName

/-!
# Classification

A classifier says which folder a file belongs in, from its name alone. Dot files and reserved
names stay; then the text after the last dot decides, first by the table of extensions, and where
the table has no entry by fixed rules: PHP files that look like shared fragments are includes,
other PHP files and HTML pages stay, and everything else is an ordinary file.

Extensions and reserved names can be added. A later entry for an extension hides earlier ones, and
an entry without a category keeps its files in place.
-/

namespace SiteFolders

open SiteFolders.Text

/-- The table of extensions, the latest entry first, and the reserved names. -/
structure Classifier where
  extensions : List (String × Option Category)
  reserved : List String

namespace Classifier

/-! ## The standard tables -/

/-- The extensions that are sorted by default. -/
def standardExtensions : List (String × Option Category) :=
  [("css", some .css)]
    ++ ["js", "mjs", "cjs"].map (·, some .js)
    ++ ["png", "jpg", "jpeg", "webp", "gif", "svg", "ico", "bmp", "avif"].map (·, some .img)
    ++ ["mp4", "webm", "ogv", "mov", "avi", "mkv"].map (·, some .video)
    ++ ["mp3", "wav", "ogg", "aac"].map (·, some .audio)
    ++ ["woff", "woff2", "ttf", "otf", "eot"].map (·, some .fonts)
    ++ ["json", "xml", "csv"].map (·, some .data)

/-- The names that are reserved by default. -/
def standardReserved : List String :=
  ["extension.js", "package.json", "package-lock.json", ".webtidyrc.toml"]

/-- The classifier with the standard tables. -/
def standard : Classifier := ⟨standardExtensions, standardReserved⟩

instance : Inhabited Classifier := ⟨standard⟩

/-- Names of PHP files that are shared fragments. -/
def fragmentNames : List String :=
  ["header.php", "footer.php", "config.php", "functions.php", "helper.php", "helpers.php",
    "form.php", "forms.php", "includes.php"]

/-- How the names of shared PHP fragments may start. -/
def fragmentStarts : List String := ["inc_", "include_", "partials_"]

/-- How the names of shared PHP fragments may end. -/
def fragmentEnds : List String := ["_inc.php", "_include.php", "_part.php"]

/-! ## Additions -/

/-- The form in which an extension is looked up: lower case, without leading dots. -/
def extensionKey (extension : String) : String :=
  lowercase (String.ofList (extension.toList.dropWhile (· == '.')))

/-- Sorts an extension into a category, or keeps its files in place. -/
def map (c : Classifier) (extension : String) (category : Option Category) : Classifier :=
  { c with extensions := (extensionKey extension, category) :: c.extensions }

/-- Keeps a file name in place. -/
def reserve (c : Classifier) (name : String) : Classifier :=
  { c with reserved := name :: c.reserved }

/-! ## Classification -/

/-- The entry of an extension in any letter case. -/
def entry? (c : Classifier) (extension : String) : Option (Option Category) :=
  c.extensions.lookup (lowercase extension)

/-- True of dot files and reserved names. -/
def stays (c : Classifier) (name : String) : Bool :=
  name.toList.head? == some '.' || c.reserved.contains name

/-- True if a PHP file's name is that of a shared fragment. -/
def isFragment (name : String) : Bool :=
  let lower := lowercase name
  fragmentNames.contains lower
    || fragmentStarts.any (fun s => s.toList.isPrefixOf lower.toList)
    || fragmentEnds.any (fun s => s.toList.isSuffixOf lower.toList)

/-- The category of an extension that the table does not hold. -/
def fallback (name extension : String) : Option Category :=
  if extension = "php" then (if isFragment name then some .includes else none)
  else if extension = "html" ∨ extension = "htm" then none
  else some .files

/-- The category of a file, `none` for a file that stays. -/
def classify (c : Classifier) (name : String) : Option Category :=
  if c.stays name then none
  else
    let extension := lowercase (FileName.suffix name)
    (c.entry? extension).getD (fallback name extension)

/-- Reserved names stay whatever else the classifier holds. -/
theorem classify_of_stays {c : Classifier} {name : String} (h : c.stays name = true) :
    c.classify name = none := by simp [classify, h]

end Classifier

end SiteFolders
