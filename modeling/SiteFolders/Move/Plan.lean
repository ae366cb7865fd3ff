import SiteFolders.Classifier
import SiteFolders.Disk.Operations
import SiteFolders.RunError

/-!
# Plans

Which files of the root go where. A plan holds the regular files directly in the root that the
exclusion rules admit and that have a category, in rising order of their names; the order in which
the directory lists its entries makes no difference.
-/

namespace SiteFolders.Move

/-- A file that is to be moved. -/
structure Planned where
  source : Path
  fileName : String
  category : Category
deriving DecidableEq, Repr

/-- The plan for one entry of a directory, if it is to be moved. -/
def planFor? (root : Path) (classifier : Classifier) (exclusion : Exclusion)
    (entry : String × Entry) : Option Planned :=
  let source := root.join entry.1
  if entry.2.isFile && exclusion.admits source then
    (classifier.classify entry.1).map fun category => ⟨source, entry.1, category⟩
  else none

/-- The plan for the entries of a directory, which come in any order. -/
def planEntries (root : Path) (classifier : Classifier) (exclusion : Exclusion)
    (entries : List (String × Entry)) : List Planned :=
  (entries.filterMap (planFor? root classifier exclusion)).mergeSort fun a b =>
    decide (a.fileName ≤ b.fileName)

/-- The plan for a directory. -/
def plan (d : Disk) (root : Path) (classifier : Classifier) (exclusion : Exclusion) :
    Except RunError (List Planned) :=
  match d.readDir root with
  | .error e => .error (.rootUnreadable root e)
  | .ok entries => .ok (planEntries root classifier exclusion entries)

end SiteFolders.Move
