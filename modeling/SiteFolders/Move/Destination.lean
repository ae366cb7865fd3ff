import SiteFolders.Disk.Operations

/-!
# Destinations

The path to which a file is moved. A file never replaces another one: where its name is taken, a
number is added to the stem, and the first number whose name is free is used. The first
candidates that differ from each other are one more than the disk has entries, so one of them is
free.
-/

namespace SiteFolders.Move

/-- The names that are tried for a file, one after another: the name itself, then the stem with
a number. -/
def candidate (name : String) : Nat → String
  | 0 => name
  | k + 1 =>
    match FileName.stemAndExtension name with
    | (stem, some extension) => s!"{stem}-{k + 1}.{extension}"
    | (stem, none) => s!"{stem}-{k + 1}"

/-- The least number whose candidate is free in a directory. -/
def firstFree (d : Disk) (dir : Path) (name : String) : Nat :=
  ((List.range (d.entries.length + 2)).find? fun k =>
    !d.isOccupied (dir.join (candidate name k))).getD 0

/-- Makes a directory if it is missing, and chooses a path in it that is free. -/
def destination (d : Disk) (dir : Path) (name : String) : Except DiskError Path × Disk :=
  match d.makeDirs dir with
  | (.error e, made) => (.error e, made)
  | (.ok (), made) => (.ok (dir.join (candidate name (firstFree made dir name))), made)

end SiteFolders.Move
