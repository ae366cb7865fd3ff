import SiteFolders.Path
import SiteFolders.Reference.Replace

/-!
# References to moved files

The moved files are taken one after another, those with the longest names first, so that a short
name does not find part of a longer one before that one has had its turn. For each of them every
pass is applied to the text, and mentions come out as the path from the text's own directory to
the file's new place.
-/

namespace SiteFolders.Reference

/-- A file that has moved: its former name at the root, its place below the root, and its path. -/
structure Moved where
  oldName : String
  newRelative : String
  target : Path
deriving DecidableEq, Repr

/-- The order in which moved files are taken: by the byte length of the former name, the longest
first, and as they come where the lengths agree. -/
def inOrder (moved : List Moved) : List Moved :=
  moved.mergeSort fun a b => b.oldName.utf8ByteSize ≤ a.oldName.utf8ByteSize

/-- A text that is being updated, and whether any pass has found a mention in it. -/
structure Draft where
  text : List Char
  touched : Bool
deriving DecidableEq, Repr

/-- Applies one pass for one file. -/
def Draft.apply (name reference : List Char) (draft : Draft) (pass : Pass) : Draft :=
  match pass.replace? name reference draft.text with
  | some text => ⟨text, true⟩
  | none => draft

/-- Applies every pass for one moved file, as seen from a directory. -/
def Draft.follow (loose : Bool) (dir : Path) (draft : Draft) (file : Moved) : Draft :=
  let reference := (Path.reference dir file.target).toList
  (passes loose).foldl (Draft.apply file.oldName.toList reference) draft

/-- Updates a text that belongs to a file in `dir` for all moved files. -/
def update (loose : Bool) (moved : List Moved) (dir : Path) (text : List Char) : Draft :=
  (inOrder moved).foldl (Draft.follow loose dir) ⟨text, false⟩

/-- Nothing moved, nothing changed. -/
@[simp] theorem update_nil (loose : Bool) (dir : Path) (text : List Char) :
    update loose [] dir text = ⟨text, false⟩ := by simp [update, inOrder]

end SiteFolders.Reference
