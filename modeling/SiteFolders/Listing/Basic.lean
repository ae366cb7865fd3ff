import SiteFolders.Disk.Operations
import SiteFolders.RunError

/-!
# Listings

The regular files of a project, and the places that could not be listed. Only a root that cannot
be listed is an error.
-/

namespace SiteFolders

/-- The files under a root and what could not be read. -/
structure Listing where
  files : List Path := []
  unreadable : List Skip := []

/-- Two listings one after the other. -/
def Listing.append (a b : Listing) : Listing :=
  ⟨a.files ++ b.files, a.unreadable ++ b.unreadable⟩

instance : Append Listing := ⟨Listing.append⟩

/-- A listing of one file. -/
def Listing.file (p : Path) : Listing := ⟨[p], []⟩

/-- A listing of one place that could not be read. -/
def Listing.trouble (p : Path) (cause : Trouble) : Listing := ⟨[], [⟨p, cause⟩]⟩

/-- The listings of several parts one after the other. -/
def Listing.concat (parts : List Listing) : Listing := parts.foldr Listing.append {}

/-- A way to list the files under a root. -/
abbrev ListingMethod := Disk → Path → Except RunError Listing

end SiteFolders
