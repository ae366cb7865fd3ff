import SiteFolders.Disk.Error
import SiteFolders.Path

/-!
# The disk

A disk is a table of entries by location. A location lists names from the entry outwards, so the
tail of a location is its directory; the root directory is the empty location and always there.
An entry is a regular file, a directory or a symbolic link. Other volumes can be mounted on entries,
and everything lies on the volume of the nearest mount point above it.

The disk also knows who is acting. A privileged process may do everything; any other one is taken
to own every entry, so the three owner bits of an entry's mode decide what it may do.

The lemmas of this module say what each change does to look-ups; later ones need no more.
-/

namespace SiteFolders

/-- Names from an entry outwards to the root directory, which is the empty list. -/
abbrev Location := List String

/-- What a location holds. -/
inductive Entry where
  | file (mode : Nat) (bytes : ByteArray)
  | dir (mode : Nat)
  | link (target : String)

namespace Entry

/-- True of regular files. -/
def isFile : Entry → Bool
  | file _ _ => true
  | _ => false

/-- True of directories. -/
def isDir : Entry → Bool
  | dir _ => true
  | _ => false

/-- True of symbolic links. -/
def isLink : Entry → Bool
  | link _ => true
  | _ => false

/-- The permission bits; a link lets everyone through. -/
def mode : Entry → Nat
  | file mode _ => mode
  | dir mode => mode
  | link _ => 0o777

end Entry

/-- The mode of new directories. -/
def newDirMode : Nat := 0o755

/-- The mode of new files. -/
def newFileMode : Nat := 0o644

/-- The state of the file system as one process sees it. -/
structure Disk where
  entries : List (Location × Entry)
  /-- Where other volumes than that of the root directory are mounted. -/
  mounts : List Location := []
  privileged : Bool := true
  workingDirectory : Location := []

namespace Disk

/-! ## Look-ups and single changes -/

/-- What a location holds. -/
def get? (d : Disk) : Location → Option Entry
  | [] => some (.dir newDirMode)
  | name :: dir => d.entries.lookup (name :: dir)

/-- Puts an entry at a location. -/
def put (d : Disk) (loc : Location) (e : Entry) : Disk :=
  { d with entries := (loc, e) :: d.entries.filter fun x => x.1 != loc }

/-- Takes the entry at a location away. -/
def erase (d : Disk) (loc : Location) : Disk :=
  { d with entries := d.entries.filter fun x => x.1 != loc }

/-- The location that `loc` becomes when the tree at `old` is moved to `new`. -/
def relocate (old new loc : Location) : Location :=
  if old.isSuffixOf loc then loc.take (loc.length - old.length) ++ new else loc

/-- Moves the entry at `old` with everything below it to `new`, where whatever was there goes. What
is mounted below `old` moves along. -/
def moveTree (d : Disk) (old new : Location) : Disk :=
  { d with
    entries := ((d.erase new).entries).map fun x => (relocate old new x.1, x.2)
    mounts := d.mounts.map (relocate old new) }

/-- The names and entries directly in a directory, in rising order of the names. -/
def children (d : Disk) (dir : Location) : List (String × Entry) :=
  (d.entries.filterMap fun x =>
    match x.1 with
    | name :: parent => if parent = dir then some (name, x.2) else none
    | [] => none).mergeSort fun a b => decide (a.1 ≤ b.1)

@[simp] theorem get?_root (d : Disk) : d.get? [] = some (.dir newDirMode) := rfl

theorem lookup_filter_ne (entries : List (Location × Entry)) {loc other : Location}
    (h : other ≠ loc) :
    (entries.filter fun x => x.1 != loc).lookup other = entries.lookup other := by
  induction entries with
  | nil => rfl
  | cons x rest ih =>
    obtain ⟨l, e⟩ := x
    by_cases hl : l = loc
    · have hne : (other == l) = false := beq_false_of_ne (hl ▸ h)
      simp only [List.filter_cons, List.lookup_cons, hne]
      simpa [hl] using ih
    · simp [List.lookup_cons, hl, ih]

theorem lookup_filter_self (entries : List (Location × Entry)) (loc : Location) :
    (entries.filter fun x => x.1 != loc).lookup loc = none := by
  induction entries with
  | nil => rfl
  | cons x rest ih =>
    obtain ⟨l, e⟩ := x
    by_cases hl : l = loc
    · simpa [List.filter_cons, hl] using ih
    · have hne : (loc == l) = false := beq_false_of_ne fun h => hl h.symm
      have hkeep : (l != loc) = true := by simpa using hl
      rw [List.filter_cons, if_pos hkeep, List.lookup_cons, hne]
      exact ih

/-- A location below the root holds what was put there. -/
@[simp] theorem get?_put_self (d : Disk) (name : String) (dir : Location) (e : Entry) :
    (d.put (name :: dir) e).get? (name :: dir) = some e := by
  simp [get?, put]

/-- Putting an entry changes no other location. -/
theorem get?_put_of_ne (d : Disk) {loc other : Location} (e : Entry) (h : other ≠ loc) :
    (d.put loc e).get? other = d.get? other := by
  cases other with
  | nil => rfl
  | cons name dir =>
    have hne : ((name :: dir) == loc) = false := beq_false_of_ne h
    simp only [get?, put, List.lookup_cons, hne]
    exact lookup_filter_ne d.entries h

/-- Nothing is left where an entry was taken away. -/
@[simp] theorem get?_erase_self (d : Disk) (name : String) (dir : Location) :
    (d.erase (name :: dir)).get? (name :: dir) = none := by
  simp only [get?, erase]
  exact lookup_filter_self d.entries _

/-- Taking an entry away changes no other location. -/
theorem get?_erase_of_ne (d : Disk) {loc other : Location} (h : other ≠ loc) :
    (d.erase loc).get? other = d.get? other := by
  cases other with
  | nil => rfl
  | cons name dir =>
    simp only [get?, erase]
    exact lookup_filter_ne d.entries h

/-! ## Volumes -/

/-- True if a volume is mounted at a location. -/
def isMount (d : Disk) (loc : Location) : Bool := d.mounts.contains loc

/-- Where the volume is mounted that a location lies on. -/
def volume (d : Disk) : Location → Location
  | [] => []
  | name :: dir => if d.isMount (name :: dir) then name :: dir else d.volume dir

/-! ## Permissions -/

/-- True if the acting process may read what has this mode. -/
def mayRead (d : Disk) (mode : Nat) : Bool := d.privileged || mode &&& 0o400 != 0

/-- True if the acting process may change what has this mode. -/
def mayWrite (d : Disk) (mode : Nat) : Bool := d.privileged || mode &&& 0o200 != 0

/-- True if the acting process may look names up in a directory of this mode. -/
def maySearch (d : Disk) (mode : Nat) : Bool := d.privileged || mode &&& 0o100 != 0

end Disk

end SiteFolders
