import SiteFolders.Disk.Resolve

/-!
# Operations on the disk

What a program can ask of the disk and how it can change it. A change either fails and leaves
everything as it was, so it is an `Except DiskError Disk`, or it goes through; only making
a chain of directories may fail half way, and then tells what it has made.
-/

namespace SiteFolders.Disk

/-! ## Questions -/

/-- The entry that a path leads to, through links. -/
def stat (d : Disk) (p : Path) : Except DiskError Entry := (·.2) <$> d.locate true p

/-- The entry at a path itself, also if it is a link. -/
def lstat (d : Disk) (p : Path) : Except DiskError Entry := (·.2) <$> d.locate false p

/-- True if the path leads to an entry that can be reached. -/
def exists? (d : Disk) (p : Path) : Bool := (d.stat p).toOption.isSome

/-- True if the path leads to a directory. -/
def isDir (d : Disk) (p : Path) : Bool := (d.stat p).toOption.any Entry.isDir

/-- True if there is anything at the path itself, also a link that leads nowhere. -/
def isOccupied (d : Disk) (p : Path) : Bool := (d.lstat p).toOption.isSome

/-- The names and entries in a directory, in rising order of the names. -/
def readDir (d : Disk) (p : Path) : Except DiskError (List (String × Entry)) := do
  match ← d.locate true p with
  | (loc, .dir mode) => if d.mayRead mode then return d.children loc else throw .denied
  | _ => throw .notDirectory

/-- The bytes of a regular file. -/
def readBytes (d : Disk) (p : Path) : Except DiskError ByteArray := do
  let (_, e) ← d.locate true p
  if !d.mayRead e.mode then throw .denied
  match e with
  | .file _ bytes => return bytes
  | _ => throw .isDirectory

/-- The text of a regular file. -/
def readText (d : Disk) (p : Path) : Except DiskError String := do
  let bytes ← d.readBytes p
  match String.fromUTF8? bytes with
  | some text => return text
  | none => throw .notText

/-- The path of the entry that a path leads to, without links and dots. -/
def canonical (d : Disk) (p : Path) : Except DiskError Path :=
  (fun x => Path.ofLocation x.1) <$> d.locate true p

/-! ## Making directories -/

/-- Makes a directory. -/
def makeDir (d : Disk) (p : Path) : Except DiskError Disk := do
  match ← d.slot p with
  | (_, none) => throw .alreadyExists
  | (dir, some name) =>
    if (← d.entryIn dir name).isSome then throw .alreadyExists
    else if !d.mayChange dir then throw .denied
    else return d.put (name :: dir) (.dir newDirMode)

/-- Makes the first directory of a list that runs from a path up through its parents, and first
those parents that are missing. It is no failure if there is a directory already. -/
def makeChain : List Path → Disk → Except DiskError Unit × Disk
  | [], d => (.ok (), d)
  | p :: parents, d =>
    if p.text.isEmpty then (.ok (), d)
    else match d.makeDir p with
    | .ok made => (.ok (), made)
    | .error .notFound =>
      match makeChain parents d with
      | (.error e, made) => (.error e, made)
      | (.ok (), made) =>
        match made.makeDir p with
        | .ok done => (.ok (), done)
        | .error e => (if made.isDir p then .ok () else .error e, made)
    | .error e => (if d.isDir p then .ok () else .error e, d)

/-- Makes a directory and the parents that are missing. -/
def makeDirs (d : Disk) (p : Path) : Except DiskError Unit × Disk := makeChain p.ancestors d

/-! ## Changing files -/

/-- True if the path ends in a slash, or leads to a link whose target does. A file cannot be opened
there to be written, whatever there is. -/
def asksForDir : (links : Nat) → Disk → Path → Bool
  | 0, _, _ => false
  | links + 1, d, p =>
    match d.slot p with
    | .ok (dir, some name) =>
      endsInSlash p || match d.get? (name :: dir) with
        | some (.link target) => asksForDir links { d with workingDirectory := dir } ⟨target⟩
        | _ => false
    | _ => false

/-- What a path leads to where a file is opened to be written. -/
def openPlace (d : Disk) (p : Path) : Except DiskError Place :=
  (d.resolve true p).mapError fun cause =>
    if d.asksForDir (linkLimit + 1) p then .isDirectory else cause

/-- Gives the file at a path new contents, and makes it if it is missing. The new mode is only
for a file that is made, unless `setMode` is set. -/
def store (d : Disk) (p : Path) (mode : Nat) (setMode : Bool) (bytes : ByteArray) :
    Except DiskError Disk := do
  let place ← d.openPlace p
  if endsInSlash p then throw .isDirectory
  match place with
  | .entry loc =>
    match d.get? loc with
    | some (.file old _) =>
      if d.mayWrite old then return d.put loc (.file (if setMode then mode else old) bytes)
      else throw .denied
    | _ => throw .isDirectory
  | .vacant dir name =>
    if d.mayChange dir then return d.put (name :: dir) (.file mode bytes) else throw .denied

/-- Gives the file at a path a new text, and makes it if it is missing. -/
def writeText (d : Disk) (p : Path) (text : String) : Except DiskError Disk :=
  d.store p newFileMode false text.toUTF8

/-- Takes the file or link at a path away, unless something is mounted on it. -/
def removeFile (d : Disk) (p : Path) : Except DiskError Disk := do
  match ← d.slot p with
  | (_, none) => throw .isDirectory
  | (dir, some name) =>
    match ← d.entryIn dir name with
    | none => throw .notFound
    | some e =>
      if endsInSlash p then throw (if e.isDir then .isDirectory else .notDirectory)
      else if !d.mayChange dir then throw .denied
      else if e.isDir then throw .isDirectory
      else if d.isMount (name :: dir) then throw .busy
      else return d.erase (name :: dir)

/-- Copies a regular file with its mode, through links on both sides. A file that is copied onto
itself is emptied first. -/
def copyFile (d : Disk) (source target : Path) : Except DiskError Disk := do
  let (loc, e) ← d.locate true source
  if !d.mayRead e.mode then throw .denied
  match e with
  | .file mode bytes =>
    let onto := match d.resolve true target with
      | .ok (.entry other) => other == loc
      | _ => false
    d.store target mode true (if onto then .empty else bytes)
  | _ => throw .notRegular

/-! ## Renaming -/

/-- Checks that an entry is of a kind that may take the place of another one. -/
def checkKind (e : Entry) : Option Entry → Except DiskError Unit
  | none => .ok ()
  | some old =>
    if e.isDir && !old.isDir then .error .notDirectory
    else if !e.isDir && old.isDir then .error .isDirectory
    else .ok ()

/-- Renames the entry at a path, links themselves included. An entry that is not a directory
replaces another one silently, and a directory an empty one. Nothing is renamed from one volume to
another. -/
def rename (d : Disk) (source target : Path) : Except DiskError Disk := do
  let (fromDir, fromName?) ← d.slot source
  let (toDir, toName?) ← d.slot target
  if d.volume fromDir != d.volume toDir then throw .crossesDevices
  else match fromName?, toName? with
  | some fromName, some toName =>
    match ← d.entryIn fromDir fromName with
    | none => throw .notFound
    | some e =>
      let existing ← d.entryIn toDir toName
      let old := fromName :: fromDir
      let new := toName :: toDir
      if !e.isDir && (endsInSlash source || endsInSlash target) then throw .notDirectory
      else if e.isDir && old.isSuffixOf toDir then throw .invalid
      else if new.isSuffixOf fromDir then throw .notEmpty
      else if old = new then return d
      else if !d.mayChange fromDir then throw .denied
      else if !d.mayChange toDir then throw .denied
      else
        checkKind e existing
        if e.isDir && fromDir != toDir && !d.mayWrite e.mode then throw .denied
        else if d.isMount old || d.isMount new then throw .busy
        else if existing.isSome && e.isDir && !(d.children new).isEmpty then throw .notEmpty
        else return d.moveTree old new
  | _, _ => throw .busy

end SiteFolders.Disk
