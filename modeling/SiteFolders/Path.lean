import SiteFolders.FileName
import SiteFolders.Text.Lowercase

/-!
# Paths

A path is a text; slashes separate its segments. Empty segments and single dots mean nothing,
except for a dot at the start of a relative path, so a path also has a list of components. Two
paths with the same components are the same path (`Path.same`), but the text is what gets shown,
and taking a parent or stripping a leading directory leaves the rest of the text as it was.

`Path.relativeTo?` goes from one path to another by components, and `Path.reference` is the text
that a file in one directory uses to refer to another file.
-/

namespace SiteFolders

/-- A step of a path. -/
inductive Component where
  | root
  | here
  | up
  | name (s : String)
deriving DecidableEq, Repr

/-- The text of a step. -/
def Component.text : Component → String
  | .root => "/"
  | .here => "."
  | .up => ".."
  | .name s => s

/-- The step that a segment stands for when it is not the first of its path. -/
def Component.ofSegment? (s : String) : Option Component :=
  if s = "" ∨ s = "." then none
  else if s = ".." then some .up
  else some (.name s)

/-- A path as it is written. -/
structure Path where
  text : String
deriving DecidableEq, Repr, Inhabited

namespace Path

/-- The parts between the slashes of a text. -/
def segmentsOf (text : String) : List String :=
  (text.toList.splitOn '/').map String.ofList

/-- A segment and the step it stands for, if it stands for one. -/
abbrev Piece := Option Component × String

/-- The segments of a path with the steps they stand for. -/
def pieces (p : Path) : List Piece :=
  match segmentsOf p.text with
  | [] => []
  | first :: rest =>
    let start :=
      if first = "" ∧ rest ≠ [] then some .root
      else if first = "." then some .here
      else Component.ofSegment? first
    (start, first) :: rest.map fun s => (Component.ofSegment? s, s)

/-- The steps of a path. -/
def components (p : Path) : List Component := p.pieces.filterMap (·.1)

/-- True of paths that take the same steps. -/
def same (p q : Path) : Bool := p.components == q.components

/-- True of paths that start at the root directory. -/
def isAbsolute (p : Path) : Bool := p.text.toList.head? == some '/'

/-- The pieces without those at the end that stand for no step. -/
def trimEnd (ps : List Piece) : List Piece := (ps.reverse.dropWhile (·.1.isNone)).reverse

/-- The pieces without those at the start that stand for no step. -/
def trimStart (ps : List Piece) : List Piece := ps.dropWhile (·.1.isNone)

/-- The text of a list of pieces. -/
def ofPieces (ps : List Piece) : Path :=
  match ps with
  | [(some .root, _)] => ⟨"/"⟩
  | ps => ⟨"/".intercalate (ps.map (·.2))⟩

/-- The last step, if it is a name. -/
def fileName? (p : Path) : Option String :=
  match p.components.getLast? with
  | some (.name s) => some s
  | _ => none

/-- The path without its last step. The root directory and the empty path have no parent. -/
def parent? (p : Path) : Option Path :=
  let kept := trimEnd p.pieces
  match kept.getLast? with
  | none => none
  | some (some .root, _) => none
  | some _ => some (ofPieces (trimEnd kept.dropLast))

/-- The path and its parents, as many as `fuel` allows. -/
def ancestorsWithin : Nat → Path → List Path
  | 0, p => [p]
  | fuel + 1, p =>
    p :: match p.parent? with
      | some q => ancestorsWithin fuel q
      | none => []

/-- The path, its parent, the parent's parent and so on. -/
def ancestors (p : Path) : List Path := ancestorsWithin p.text.length p

/-- The extension of the file name, which a dot at the very start does not begin. -/
def extension? (p : Path) : Option String :=
  p.fileName?.bind fun s => (FileName.stemAndExtension s).2

/-- The extension in lower case. -/
def lowerExtension? (p : Path) : Option String := p.extension?.map Text.lowercase

/-- The extensions of files that hold references. -/
def referringExtensions : List String := ["html", "htm", "php", "css", "js"]

/-- True of files that hold references. -/
def isText (p : Path) : Bool := p.lowerExtension?.any referringExtensions.contains

/-- `rest` as seen from the directory `base`. An absolute `rest` stands for itself, and an empty
one adds a slash. -/
def join (base : Path) (rest : String) : Path :=
  if rest.toList.head? = some '/' then ⟨rest⟩
  else if base.text.isEmpty ∨ base.text.toList.getLast? = some '/' then ⟨base.text ++ rest⟩
  else ⟨base.text ++ "/" ++ rest⟩

/-- Drops pieces until the given steps have been taken. -/
def dropSteps : List Component → List Piece → Option (List Piece)
  | [], ps => some ps
  | _ :: _, [] => none
  | c :: cs, (step, _) :: ps =>
    match step with
    | none => dropSteps (c :: cs) ps
    | some d => if d = c then dropSteps cs ps else none

/-- What is left of a path after the steps of `base`, if it begins with them. -/
def stripPrefix? (base p : Path) : Option Path :=
  match base.components with
  | [] => some (ofPieces (trimEnd p.pieces))
  | cs => (dropSteps cs p.pieces).map fun rest => ofPieces (trimEnd (trimStart rest))

/-! ## From one path to another -/

/-- The steps from `base` to `target`, once both have begun alike: `none` where `base` goes up
to a directory whose name is not known. -/
def stepsAfter : (target base : List Component) → (moved : Bool) → Option (List Component)
  | [], [], _ => some []
  | target, [], _ => some target
  | [], _ :: base, _ => (stepsAfter [] base true).map (.up :: ·)
  | a :: target, b :: base, moved =>
    if !moved && a = b then stepsAfter target base false
    else if b = .here then (stepsAfter target base true).map (a :: ·)
    else if b = .up then none
    else some (.up :: (base.map fun _ => Component.up) ++ a :: target)

/-- `target` as seen from the directory `base`, if it can be said. -/
def relativeTo? (base target : Path) : Option Path :=
  if target.isAbsolute = base.isAbsolute then
    (stepsAfter target.components base.components false).map fun steps =>
      ⟨"/".intercalate (steps.map (·.text))⟩
  else if target.isAbsolute then some target
  else none

/-- The text with slashes for backslashes. -/
def withSlashes (text : String) : String :=
  String.ofList (text.toList.map fun c => if c = '\\' then '/' else c)

/-- The text by which a file in `dir` refers to `target`, with forward slashes only. Where there
is no relative path it is the path itself. -/
def reference (dir target : Path) : String :=
  withSlashes ((relativeTo? dir target).getD target).text

/-- A path below `root` as seen from there, with forward slashes only. -/
def below (root p : Path) : String :=
  withSlashes ((stripPrefix? root p).getD p).text

end Path

end SiteFolders
