import SiteFolders.Regex.Basic
import SiteFolders.Regex.CharSet

/-!
# Reading written expressions

The reader for the usual notation: alternatives, groups, repetitions, anchors, classes and flags,
without look-around and back references. Expressions are only asked whether they match, so groups
leave no trace and lazy repetitions are read as plain ones.

Every part carries a weight, an estimate of the memory that its automaton would take, and an
expression above `sizeLimit` is refused before its repetitions are written out.
-/

namespace SiteFolders.Regex

open SiteFolders.Text

/-- The largest weight of an expression. -/
def sizeLimit : Nat := 10485760

/-- A part of an expression and its weight. -/
structure Part where
  regex : Regex
  weight : Nat

/-- The weight of several parts together. -/
def totalWeight (parts : List Part) : Nat := parts.foldr (fun part n => part.weight + n) 0

/-- A group whose closing parenthesis is still to come: what stood before it, and the flags that
hold again after it. -/
structure OpenGroup where
  alternatives : List Part
  pieces : List (Option Part)
  flags : Flags

/-- What has been read so far. The lists are in reverse, and a piece that is no expression is a
change of flags. -/
structure Progress where
  groups : List OpenGroup := []
  alternatives : List Part := []
  pieces : List (Option Part) := []
  flags : Flags := {}
  names : List (List Char) := []

/-- The pieces of one alternative as a part. -/
def Progress.alternative (s : Progress) : Part :=
  let parts := s.pieces.reverse.filterMap id
  ⟨.concat (parts.map (·.regex)), totalWeight parts⟩

/-- Everything since the last open parenthesis as a part. -/
def Progress.body (s : Progress) : Part :=
  let parts := (s.alternative :: s.alternatives).reverse
  ⟨.choice (parts.map (·.regex)), totalWeight parts + 32 * parts.length⟩

/-- Adds a piece. -/
def Progress.push (s : Progress) (r : Regex) (weight : Nat) : Progress :=
  { s with pieces := some ⟨r, weight⟩ :: s.pieces }

/-! ## Single characters and tests -/

/-- A character that stands for itself. -/
def Progress.pushChar (s : Progress) (c : Char) : Progress :=
  let p : CharSet :=
    if s.flags.ignoreCase then
      if s.flags.unicode then sameFold c
      else fun d => d == c || (isAscii d && d.toLower == c.toLower)
    else fun d => d == c
  s.push (.one p) (32 * c.utf8Size)

/-- The characters that a dot matches. -/
def dotSet (flags : Flags) : CharSet := fun c =>
  flags.dotAll || (c != '\n' && !(flags.crlf && c == '\r'))

/-- The test that a caret stands for. -/
def startEdge (flags : Flags) (before after : Option Char) : Bool :=
  before.isNone || (flags.multiLine &&
    (before == some '\n' || (flags.crlf && before == some '\r' && after != some '\n')))

/-- The test that a dollar sign stands for. -/
def endEdge (flags : Flags) (before after : Option Char) : Bool :=
  after.isNone || (flags.multiLine &&
    (if flags.crlf then after == some '\r' || (after == some '\n' && before != some '\r')
     else after == some '\n'))

/-- Adds what an escape stands for. -/
def Progress.pushEscape (s : Progress) : Escape → Progress
  | .char c => s.pushChar c
  | .set p => s.push (.one p) 4096
  | .edge p => s.push (.edge p) 32

/-! ## Repetitions -/

/-- How often a part may be repeated; no upper bound is `none`. -/
structure Count where
  low : Nat
  high : Option Nat

/-- A repeated part. -/
def Part.repeat (part : Part) (count : Count) : Part :=
  match count.high with
  | none =>
    ⟨.seq (part.regex.exactly count.low) (.star part.regex),
      part.weight * (count.low + 1) + 64⟩
  | some high =>
    ⟨.seq (part.regex.exactly count.low) (part.regex.atMost (high - count.low)),
      (part.weight + (if count.low < high then 40 else 0)) * high + 32⟩

/-- Repeats the last piece. -/
def Progress.repeatLast (s : Progress) (count : Count) : Except Fault Progress :=
  match s.pieces with
  | some part :: pieces =>
    let high := count.high.getD (count.low + 1)
    if sizeLimit < part.weight * high then .error .tooLarge
    else .ok { s with pieces := some (part.repeat count) :: pieces }
  | _ => .error .repetitionMissing

/-- No count is as large as this. -/
def countLimit : Nat := 4294967296

/-- A decimal count with the blanks around it. -/
def readDecimal (flags : Flags) (rest : List Char) : Except Fault (Nat × List Char) :=
  let rest := rest.dropWhile isBlank
  let rec digits : Nat → List Char → List Char → List Char × List Char
    | 0, found, rest => (found.reverse, rest)
    | fuel + 1, found, rest =>
      match rest with
      | c :: more =>
        if c.isDigit then digits fuel (c :: found) (skipBlanks flags more)
        else (found.reverse, rest)
      | [] => (found.reverse, [])
  let (found, rest) := digits rest.length [] rest
  if found.isEmpty then .error .repetitionCount
  else
    let n := found.foldl (fun n d => 10 * n + (d.toNat - '0'.toNat)) 0
    if n < countLimit then .ok (n, skipBlanks flags (rest.dropWhile isBlank))
    else .error .repetitionCount

/-- Reads the count after an opening brace. -/
def readCount (flags : Flags) (rest : List Char) : Except Fault (Count × List Char) := do
  let (low, rest) ← readDecimal flags (skipBlanks flags rest)
  let (count, rest) ←
    match rest with
    | ',' :: rest =>
      match skipBlanks flags rest with
      | [] => throw .repetitionCount
      | '\x7d' :: rest => pure (Count.mk low none, '\x7d' :: rest)
      | rest => do
        let (high, rest) ← readDecimal flags rest
        pure (Count.mk low (some high), rest)
    | rest => pure (Count.mk low (some low), rest)
  match rest with
  | '\x7d' :: rest =>
    if count.high.any (· < count.low) then throw .repetitionCount
    else return (count, rest)
  | _ => throw .repetitionCount

/-- Drops the question mark that makes a repetition lazy. -/
def dropLazy : List Char → List Char
  | '?' :: rest => rest
  | rest => rest

/-! ## Groups -/

/-- True of characters that a group's name may hold, at its start or later. -/
def isNameChar (first : Bool) (c : Char) : Bool :=
  c == '_' || isAlphabetic c
    || (!first && (c == '.' || c == '[' || c == ']'
      || ["Nd", "Nl", "No"].contains (generalCategory c)))

/-- Opens a group. -/
def Progress.openGroup (s : Progress) (flags : Flags) : Progress :=
  { s with groups := ⟨s.alternatives, s.pieces, s.flags⟩ :: s.groups,
           alternatives := [], pieces := [], flags }

/-- Closes the innermost group. -/
def Progress.closeGroup (s : Progress) : Except Fault Progress :=
  match s.groups with
  | [] => .error .groupUnopened
  | g :: groups =>
    let body := s.body
    .ok { s with groups, alternatives := g.alternatives,
                 pieces := some ⟨body.regex, body.weight + 64⟩ :: g.pieces, flags := g.flags }

/-- Reads the name of a group up to its closing angle bracket and opens the group. -/
def Progress.openNamed (s : Progress) (rest : List Char) : Except Fault (Progress × List Char) :=
  let name := rest.takeWhile (· != '>')
  match name, rest.dropWhile (· != '>') with
  | first :: more, '>' :: rest =>
    if !isNameChar true first || !more.all (isNameChar false) || s.names.contains name then
      .error .groupName
    else .ok ({ s.openGroup s.flags with names := name :: s.names }, rest)
  | _, _ => .error .groupName

/-- Sets one flag. -/
def Flags.set (flags : Flags) (letter : Char) (on : Bool) : Option Flags :=
  match letter with
  | 'i' => some { flags with ignoreCase := on }
  | 'm' => some { flags with multiLine := on }
  | 's' => some { flags with dotAll := on }
  | 'u' => some { flags with unicode := on }
  | 'x' => some { flags with verbose := on }
  | 'R' => some { flags with crlf := on }
  | 'U' => some flags
  | _ => none

/-- Reads flags up to a colon or a closing parenthesis; a hyphen, at most one, switches off the
flags after it, and no flag stands twice. -/
def readFlags : (used : List Char) → Flags → (rest : List Char) →
    Except Fault (List Char × Flags × List Char)
  | _, _, [] => .error .flag
  | used, flags, c :: rest =>
    if c = ':' ∨ c = ')' then
      if used.head? = some '-' then .error .flag else .ok (used, flags, c :: rest)
    else if used.contains c then .error .flag
    else if c = '-' then readFlags (c :: used) flags rest
    else match flags.set c (!used.contains '-') with
      | some flags => readFlags (c :: used) flags rest
      | none => .error .flag

/-- Reads what follows an opening parenthesis. -/
def Progress.readOpening (s : Progress) (rest : List Char) :
    Except Fault (Progress × List Char) :=
  match skipBlanks s.flags rest with
  | '?' :: '=' :: _ | '?' :: '!' :: _ | '?' :: '<' :: '=' :: _ | '?' :: '<' :: '!' :: _ =>
    .error .lookAround
  | '?' :: 'P' :: '<' :: rest | '?' :: '<' :: rest => s.openNamed rest
  | '?' :: rest => do
    let (used, flags, rest) ← readFlags [] s.flags rest
    match rest with
    | ':' :: rest => return (s.openGroup flags, rest)
    | _ :: rest =>
      if used.isEmpty then throw .repetitionMissing
      else return ({ s with flags, pieces := none :: s.pieces }, rest)
    | [] => throw .groupUnclosed
  | rest => .ok (s.openGroup s.flags, rest)

/-! ## The whole expression -/

/-- Reads the rest of an expression. -/
def Progress.read : Nat → Progress → List Char → Except Fault Part
  | 0, _, _ => .error .tooLarge
  | fuel + 1, s, rest =>
    match skipBlanks s.flags rest with
    | [] => if s.groups.isEmpty then .ok s.body else .error .groupUnclosed
    | '(' :: rest => do
      let (s, rest) ← s.readOpening rest
      s.read fuel rest
    | ')' :: rest => do (← s.closeGroup).read fuel rest
    | '|' :: rest =>
      Progress.read fuel
        { s with alternatives := s.alternative :: s.alternatives, pieces := [] } rest
    | '[' :: rest => do
      let (p, rest) ← readBracketed s.flags rest
      (s.push (.one p) 512).read fuel rest
    | '?' :: rest => do (← s.repeatLast ⟨0, some 1⟩).read fuel (dropLazy rest)
    | '*' :: rest => do (← s.repeatLast ⟨0, none⟩).read fuel (dropLazy rest)
    | '+' :: rest => do (← s.repeatLast ⟨1, none⟩).read fuel (dropLazy rest)
    | '\x7b' :: rest => do
      if s.pieces.head?.join.isNone then throw .repetitionMissing
      let (count, rest) ← readCount s.flags rest
      (← s.repeatLast count).read fuel (dropLazy (skipBlanks s.flags rest))
    | '\\' :: rest => do
      let (escape, rest) ← readEscape s.flags rest
      (s.pushEscape escape).read fuel rest
    | '.' :: rest =>
      if s.flags.unicode then (s.push (.one (dotSet s.flags)) 512).read fuel rest
      else .error .invalidText
    | '^' :: rest => (s.push (.edge (startEdge s.flags)) 32).read fuel rest
    | '$' :: rest => (s.push (.edge (endEdge s.flags)) 32).read fuel rest
    | c :: rest => (s.pushChar c).read fuel rest

/-- Reads a written expression. -/
def parse (pattern : String) : Except Fault Regex := do
  let text := pattern.toList
  let part ← Progress.read (text.length + 1) {} text
  if sizeLimit < part.weight then throw .tooLarge
  return part.regex

end SiteFolders.Regex
