import SiteFolders.Disk.Basic

/-!
# Resolving paths

How a path finds its location: name by name, through directories that the process may search,
and through symbolic links, of which a path may pass forty. `Disk.resolve` gives the entry that a
path leads to, or the directory and the name where an entry could be made; `Disk.slot` gives
the directory and the name that a path ends in, for changes to the directory itself.
-/

namespace SiteFolders

/-- What a path leads to. -/
inductive Place where
  /-- An entry that exists. -/
  | entry (loc : Location)
  /-- A name that is free in a directory that exists. -/
  | vacant (dir : Location) (name : String)
deriving DecidableEq

namespace Disk

/-- The longest name, in bytes. -/
def nameLimit : Nat := 255

/-- The longest path, in bytes. -/
def pathLimit : Nat := 4095

/-- How many links a path may pass. -/
def linkLimit : Nat := 40

/-- The names that a path text goes through. -/
def namesOf (text : String) : List String := (Path.segmentsOf text).filter (· != "")

/-- The names that the target of a link goes through. A slash at its end adds the empty name, which
asks for a directory. -/
def targetNames (target : String) : List String :=
  namesOf target ++ if target.toList.getLast? = some '/' then [""] else []

/-- Where a path text starts from, seen from a directory. -/
def startOf (text : String) (here : Location) : Location :=
  if text.toList.head? = some '/' then [] else here

/-- Goes through names from a directory up to the first link that has to be followed, from which
`jump` goes on with the link's target and the names that are left. -/
def stepThrough (d : Disk) (follow : Bool)
    (jump : Location → String → List String → Except DiskError Place) :
    Location → List String → Except DiskError Place
  | here, [] => .ok (.entry here)
  | here, name :: rest =>
    match d.get? here with
    | some (.dir mode) =>
      if name = "" then stepThrough d follow jump here rest
      else if !d.maySearch mode then .error .denied
      else if name = "." then stepThrough d follow jump here rest
      else if name = ".." then stepThrough d follow jump here.tail rest
      else if nameLimit < name.utf8ByteSize then .error .nameTooLong
      else match d.get? (name :: here) with
      | none => if rest.isEmpty then .ok (.vacant here name) else .error .notFound
      | some (.link target) =>
        if rest.isEmpty && !follow then .ok (.entry (name :: here)) else jump here target rest
      | some _ => stepThrough d follow jump (name :: here) rest
    | _ => .error .notDirectory

/-- Goes through names from a directory, passing at most `links` links. The last name is only
followed if it is a link and `follow` is set. -/
def resolveFrom (d : Disk) (follow : Bool) :
    (links : Nat) → Location → List String → Except DiskError Place
  | 0 => stepThrough d follow fun _ _ _ => .error .loop
  | links + 1 => stepThrough d follow fun here target rest =>
      resolveFrom d follow links (startOf target here) (targetNames target ++ rest)

/-- Refuses path texts that lead nowhere. -/
def checkPath (p : Path) : Except DiskError Unit :=
  if p.text.toList.contains '\x00' then .error .zeroInPath
  else if p.text.isEmpty then .error .notFound
  else if pathLimit < p.text.utf8ByteSize then .error .nameTooLong
  else .ok ()

/-- True of paths that end in a slash, which only lead to directories. -/
def endsInSlash (p : Path) : Bool := p.text.toList.getLast? == some '/'

/-- True if a location holds a directory. -/
def holdsDir (d : Disk) (loc : Location) : Bool := (d.get? loc).any Entry.isDir

/-- What a path leads to; a link at its end is followed if `follow` is set. -/
def resolve (d : Disk) (follow : Bool) (p : Path) : Except DiskError Place := do
  checkPath p
  let place ← d.resolveFrom (follow || endsInSlash p) linkLimit
    (startOf p.text d.workingDirectory) (namesOf p.text)
  match place with
  | .entry loc => if endsInSlash p && !d.holdsDir loc then throw .notDirectory else return place
  | .vacant _ _ => return place

/-- The entry that a path leads to. -/
def locate (d : Disk) (follow : Bool) (p : Path) : Except DiskError (Location × Entry) := do
  match ← d.resolve follow p with
  | .entry loc =>
    match d.get? loc with
    | some e => return (loc, e)
    | none => throw .notFound
  | .vacant _ _ => throw .notFound

/-- The directory and the name that a path ends in. There is no name where the path ends in the
root directory, a dot or two dots. -/
def slot (d : Disk) (p : Path) : Except DiskError (Location × Option String) := do
  checkPath p
  let start := startOf p.text d.workingDirectory
  match (namesOf p.text).getLast? with
  | none => return (start, none)
  | some last =>
    match ← d.resolveFrom true linkLimit start (namesOf p.text).dropLast with
    | .vacant _ _ => throw .notFound
    | .entry dir =>
      match d.get? dir with
      | some (.dir mode) =>
        if !d.maySearch mode then throw .denied
        else if last = "." ∨ last = ".." then return (dir, none)
        else return (dir, some last)
      | _ => throw .notDirectory

/-- The entry of a name in a directory. -/
def entryIn (d : Disk) (dir : Location) (name : String) : Except DiskError (Option Entry) :=
  if nameLimit < name.utf8ByteSize then .error .nameTooLong else .ok (d.get? (name :: dir))

/-- True if names may be added to a directory and taken away from it. -/
def mayChange (d : Disk) (dir : Location) : Bool :=
  (d.get? dir).any fun e => d.mayWrite e.mode && d.maySearch e.mode

end Disk

/-- The path of a location. -/
def Path.ofLocation (loc : Location) : Path := ⟨"/" ++ "/".intercalate loc.reverse⟩

end SiteFolders
