import SiteFolders.Listing.Basic

/-!
# Listing by walking

Every directory is read in turn, links are not followed, and directories with a skipped name are
left out. A directory that cannot be read is noted where it stands. The root itself is followed if
it is a link, whatever its name.
-/

namespace SiteFolders.Listing

mutual

/-- The files below a directory; `depth` bounds how far down they lie. -/
def listBelow (d : Disk) (skipped : List String) : (depth : Nat) → Path → Listing
  | 0, _ => {}
  | depth + 1, dir =>
    match d.readDir dir with
    | .error e => .trouble dir (.walking dir e)
    | .ok entries => listEntries d skipped depth dir entries

/-- The files among entries of a directory and below them. -/
def listEntries (d : Disk) (skipped : List String) :
    (depth : Nat) → (dir : Path) → List (String × Entry) → Listing
  | _, _, [] => {}
  | depth, dir, (name, e) :: rest =>
    let here :=
      match e with
      | .file _ _ => Listing.file (dir.join name)
      | .dir _ =>
        if skipped.contains name then {} else listBelow d skipped depth (dir.join name)
      | .link _ => {}
    here ++ listEntries d skipped depth dir rest

end

/-- Lists the files under a root, which may be a file itself. -/
def walk (skipped : List String) : ListingMethod := fun d root =>
  let fatal (e : DiskError) : Except RunError Listing := .error (.list root (.walking root e))
  let below : Except RunError Listing :=
    match d.readDir root with
    | .error e => fatal e
    | .ok entries => .ok (listEntries d skipped d.entries.length root entries)
  match d.lstat root with
  | .error e => fatal e
  | .ok (.file _ _) => .ok (.file root)
  | .ok (.dir _) => below
  | .ok (.link _) =>
    match d.stat root with
    | .error e => fatal e
    | .ok e => if e.isDir then below else .ok {}

end SiteFolders.Listing
