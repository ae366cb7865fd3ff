import SiteFolders.Listing.Basic
import SiteFolders.Wildcard

/-!
# Listing by matching

Everything under the root is matched against `**/*`, which goes through links as well, each
directory in rising order of the names. What lies in a skipped directory is dropped by the wildcard
`**/name/**` on the path below the root, and so is everything that is no regular file or was
reached through a link.
-/

namespace SiteFolders.Listing

/-- How often a directory may lie inside another on the way to a file: once for every entry of
the disk, and as often again for every link that a path may pass. -/
def depthOf (d : Disk) : Nat := (Disk.linkLimit + 2) * (d.entries.length + 1)

/-- Everything that matches below a directory, each path before what lies in it; a directory that
cannot be read is in the list with the error. -/
def matches? (d : Disk) : (depth : Nat) → Path → List (Path × Option DiskError)
  | 0, _ => []
  | depth + 1, dir =>
    match d.readDir dir with
    | .error e => [(dir, some e)]
    | .ok entries => entries.flatMap fun (name, _) =>
      let p := dir.join name
      (p, none) :: if d.isDir p then matches? d depth p else []

/-- The wildcard for what lies in directories of a name. -/
def insideOf? (name : String) : Option Wildcard :=
  Wildcard.parse? ("**/" ++ String.ofList (Wildcard.escape name.toList) ++ "/**")

/-- True of paths below the root that lie in a skipped directory. -/
def isDropped (skipped : List String) (relative : Path) : Bool :=
  (skipped.filterMap insideOf?).any (·.accepts true relative.text.toList)

/-- True of regular files below the root that are not reached through a link. -/
def isPlainFile (d : Disk) (root relative : Path) : Bool :=
  (d.lstat (root.join relative.text)).toOption.any Entry.isFile
    && (relative.ancestors.drop 1).all fun dir =>
      dir.text.isEmpty || (d.lstat (root.join dir.text)).toOption.any fun e => !e.isLink

/-- The root as it stands in front of the paths that match: its names joined anew. -/
def matchedRoot (root : Path) : Path :=
  match Path.segmentsOf root.text with
  | "" :: rest => rest.foldl Path.join ⟨"/"⟩
  | names => names.foldl Path.join ⟨""⟩

/-- Lists the files under a root, which has to be a directory. -/
def glob (skipped : List String) : ListingMethod := fun d root =>
  match d.readDir root with
  | .error e => .error (.list root (.matching e))
  | .ok _ =>
    .ok <| .concat <| (matches? d (depthOf d) (matchedRoot root)).map fun (p, error) =>
      let relative := (Path.stripPrefix? root p).getD p
      if isDropped skipped relative then {}
      else match error with
      | some e => .trouble p (.matching e)
      | none => if isPlainFile d root relative then .file p else {}

end SiteFolders.Listing
