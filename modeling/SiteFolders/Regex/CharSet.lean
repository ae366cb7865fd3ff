import SiteFolders.Regex.Fault
import SiteFolders.Text.Folding
import SiteFolders.Text.PropertyName

/-!
# Character sets in written expressions

The sets that an expression can name, and the reader for sets in brackets: ranges, nested and
named sets, and the operators `&&`, `--` and `~~`, which bind to the left and more loosely than
writing members side by side. When letter case does not count, every set in brackets is closed
under case folding before it is negated or combined.
-/

namespace SiteFolders.Regex

open SiteFolders.Text

/-- A set of characters. -/
abbrev CharSet := Char → Bool

/-- What `(?flags)` can switch on and off. -/
structure Flags where
  ignoreCase : Bool := false
  multiLine : Bool := false
  dotAll : Bool := false
  unicode : Bool := true
  verbose : Bool := false
  crlf : Bool := false

/-! ## Blanks and comments -/

/-- The text after blanks and comments, which only count in verbose expressions. -/
def skipBlanks (flags : Flags) : List Char → List Char
  | [] => []
  | c :: rest =>
    if flags.verbose then
      if isBlank c then skipBlanks flags rest
      else if c = '#' then skipBlanks flags (rest.dropWhile (· != '\n'))
      else c :: rest
    else c :: rest
termination_by cs => cs.length
decreasing_by
  · simp
  · have := (List.dropWhile_suffix (l := rest) (· != '\n')).length_le
    simp only [List.length_cons]
    omega

/-! ## Named sets -/

/-- True of ASCII characters. -/
def isAscii (c : Char) : Bool := c.toNat < 0x80

/-- The ASCII sets that are written `[:name:]`. -/
def asciiSet? (name : String) : Option CharSet :=
  match name with
  | "alnum" => some Char.isAlphanum
  | "alpha" => some Char.isAlpha
  | "ascii" => some isAscii
  | "blank" => some fun c => c == ' ' || c == '\t'
  | "cntrl" => some fun c => c.toNat < 0x20 || c.toNat == 0x7F
  | "digit" => some Char.isDigit
  | "graph" => some fun c => 0x21 ≤ c.toNat && c.toNat ≤ 0x7E
  | "lower" => some Char.isLower
  | "print" => some fun c => 0x20 ≤ c.toNat && c.toNat ≤ 0x7E
  | "punct" => some fun c => 0x21 ≤ c.toNat && c.toNat ≤ 0x7E && !c.isAlphanum
  | "space" => some fun c => c == ' ' || (9 ≤ c.toNat && c.toNat ≤ 13)
  | "upper" => some Char.isUpper
  | "word" => some fun c => c.isAlphanum || c == '_'
  | "xdigit" => some fun c => c.isDigit || ('a' ≤ c && c ≤ 'f') || ('A' ≤ c && c ≤ 'F')
  | _ => none

/-- The classes `\d`, `\s` and `\w`; their capitals stand for the complements. -/
def perlSet? (flags : Flags) (letter : Char) : Option (Except Fault CharSet) :=
  let pick (wide narrow : CharSet) : CharSet := if flags.unicode then wide else narrow
  let complement (p : CharSet) : Except Fault CharSet :=
    if flags.unicode then .ok fun c => !p c else .error .invalidText
  let digit := pick isDecimalDigit Char.isDigit
  let space := pick isBlank fun c => c == ' ' || (9 ≤ c.toNat && c.toNat ≤ 13)
  let word := pick isWord fun c => c.isAlphanum || c == '_'
  match letter with
  | 'd' => some (.ok digit)
  | 's' => some (.ok space)
  | 'w' => some (.ok word)
  | 'D' => some (complement digit)
  | 'S' => some (complement space)
  | 'W' => some (complement word)
  | _ => none

/-- Closes a set under case folding if letter case does not count. -/
def closeSet (flags : Flags) (p : CharSet) : CharSet :=
  if flags.ignoreCase then
    if flags.unicode then foldClosure p
    else fun c => p c || (isAscii c && (p c.toLower || p c.toUpper))
  else p

/-! ## Escapes -/

/-- What a backslash and what follows it stand for. -/
inductive Escape where
  | char (c : Char)
  | set (p : CharSet)
  | edge (p : Option Char → Option Char → Bool)

/-- Characters with a meaning of their own in expressions. -/
def isMeta (c : Char) : Bool := "\\.+*?()|[]\x7b\x7d^$#&-~".toList.contains c

/-- Characters that a backslash may stand in front of without giving them a meaning. -/
def isPlainEscape (c : Char) : Bool :=
  isMeta c || (isAscii c && !c.isAlphanum && c != '<' && c != '>')

/-- True of hexadecimal digits. -/
def isHexDigit (c : Char) : Bool :=
  c.isDigit || ('a' ≤ c && c ≤ 'f') || ('A' ≤ c && c ≤ 'F')

/-- The character with a code point, if there is one. -/
def charOf? (n : Nat) : Option Char :=
  if n < 0xD800 ∨ (0xDFFF < n ∧ n < 0x110000) then some (Char.ofNat n) else none

/-- Reads digits of a hexadecimal escape up to the closing brace. -/
def hexInBraces (flags : Flags) : Nat → List Char → List Char →
    Except Fault (List Char × List Char)
  | 0, _, _ => .error .escapeEnd
  | fuel + 1, digits, rest =>
    match skipBlanks flags rest with
    | [] => .error .escapeEnd
    | '\x7d' :: rest => .ok (digits.reverse, rest)
    | c :: rest =>
      if isHexDigit c then hexInBraces flags fuel (c :: digits) rest else .error .hexadecimal

/-- Reads a fixed number of hexadecimal digits. -/
def hexDigits (flags : Flags) : Nat → List Char → List Char →
    Except Fault (List Char × List Char)
  | 0, digits, rest => .ok (digits.reverse, rest)
  | n + 1, digits, rest =>
    match skipBlanks flags rest with
    | [] => .error .escapeEnd
    | c :: rest =>
      if isHexDigit c then hexDigits flags n (c :: digits) rest else .error .hexadecimal

/-- Reads the digits after `\x`, `\u` or `\U`, which take `count` digits without braces. -/
def readHex (flags : Flags) (count : Nat) (rest : List Char) :
    Except Fault (Char × List Char) := do
  let (digits, rest) ←
    match skipBlanks flags rest with
    | '\x7b' :: rest => hexInBraces flags (rest.length + 1) [] rest
    | rest => hexDigits flags count [] rest
  if digits.isEmpty then throw .hexadecimal
  match charOf? (ofHex digits) with
  | some c =>
    if flags.unicode || isAscii c then return (c, skipBlanks flags rest)
    else throw .invalidText
  | none => throw .hexadecimal

/-- Reads a property name up to the closing brace. -/
def propertyInBraces (flags : Flags) : Nat → List Char → List Char →
    Except Fault (List Char × List Char)
  | 0, _, _ => .error .escapeEnd
  | fuel + 1, name, rest =>
    match skipBlanks flags rest with
    | [] => .error .escapeEnd
    | '\x7d' :: rest => .ok (name.reverse, rest)
    | c :: rest => propertyInBraces flags fuel (c :: name) rest

/-- The set that the text between the braces of a property escape stands for. -/
def propertySet (name : List Char) : Except Fault CharSet :=
  let split (mark : List Char) : Option (List Char × List Char) :=
    (List.range name.length).findSome? fun n =>
      if mark.isPrefixOf (name.drop n) then some (name.take n, name.drop (n + mark.length))
      else none
  let value (pair : List Char × List Char) (negated : Bool) : Except Fault CharSet :=
    match valueSet? pair.1 pair.2 with
    | some p => .ok fun c => p c != negated
    | none => .error .property
  match split ['!', '='] with
  | some pair => value pair true
  | none =>
    match split [':'] with
    | some pair => value pair false
    | none =>
      match split ['='] with
      | some pair => value pair false
      | none => match namedSet? name with
        | some p => .ok p
        | none => .error .property

/-- Reads what follows `\p` or `\P`. -/
def readProperty (flags : Flags) (negated : Bool) (rest : List Char) :
    Except Fault (CharSet × List Char) := do
  let (name, rest) ←
    match skipBlanks flags rest with
    | [] => throw .escapeEnd
    | '\x7b' :: rest => propertyInBraces flags (rest.length + 1) [] rest
    | '\\' :: _ => throw .property
    | c :: rest => pure ([c], skipBlanks flags rest)
  if !flags.unicode then throw .invalidText
  let p ← propertySet name
  return (fun c => closeSet flags p c != negated, rest)

/-! ## Zero-width tests -/

/-- True of word characters, and of none outside the text. -/
def wordSide (flags : Flags) (c : Option Char) : Bool :=
  c.any fun c => if flags.unicode then isWord c else c.isAlphanum || c == '_'

/-- A test at a word boundary, from what holds on both sides. -/
def wordEdge (flags : Flags) (test : Bool → Bool → Bool) : Escape :=
  .edge fun before after => test (wordSide flags before) (wordSide flags after)

/-- Reads the name of a boundary in braces; none if what follows is a repetition instead. -/
def readBoundaryName (flags : Flags) : Nat → List Char → List Char →
    Except Fault (List Char × List Char)
  | 0, _, _ => .error .wordBoundary
  | fuel + 1, name, rest =>
    match skipBlanks flags rest with
    | '\x7d' :: rest => .ok (name.reverse, rest)
    | c :: rest =>
      if c.isAlpha || c = '-' then readBoundaryName flags fuel (c :: name) rest
      else .error .wordBoundary
    | [] => .error .wordBoundary

/-- Reads what follows `\b`. -/
def readBoundary (flags : Flags) (rest : List Char) : Except Fault (Escape × List Char) :=
  let plain := wordEdge flags fun a b => a != b
  match rest with
  | '\x7b' :: inner =>
    match skipBlanks flags inner with
    | [] => .error .wordBoundary
    | c :: _ =>
      if c.isAlpha || c = '-' then do
        let (name, rest) ← readBoundaryName flags (inner.length + 1) [] inner
        match String.ofList name with
        | "start" => return (wordEdge flags fun a b => !a && b, rest)
        | "end" => return (wordEdge flags fun a b => a && !b, rest)
        | "start-half" => return (wordEdge flags fun a _ => !a, rest)
        | "end-half" => return (wordEdge flags fun _ b => !b, rest)
        | _ => throw .wordBoundary
      else .ok (plain, rest)
  | _ => .ok (plain, rest)

/-- Reads what follows a backslash. -/
def readEscape (flags : Flags) : List Char → Except Fault (Escape × List Char)
  | [] => .error .escapeEnd
  | c :: rest =>
    if c.isDigit then .error .backReference
    else if c = 'x' then do
      let (c, rest) ← readHex flags 2 rest
      return (.char c, rest)
    else if c = 'u' then do
      let (c, rest) ← readHex flags 4 rest
      return (.char c, rest)
    else if c = 'U' then do
      let (c, rest) ← readHex flags 8 rest
      return (.char c, rest)
    else if c = 'p' ∨ c = 'P' then do
      let (p, rest) ← readProperty flags (c = 'P') rest
      return (.set p, rest)
    else match perlSet? flags c with
    | some p => do return (.set (← p), rest)
    | none =>
      if isPlainEscape c then .ok (.char c, rest)
      else match c with
      | 'a' => .ok (.char '\x07', rest)
      | 'f' => .ok (.char '\x0c', rest)
      | 't' => .ok (.char '\t', rest)
      | 'n' => .ok (.char '\n', rest)
      | 'r' => .ok (.char '\r', rest)
      | 'v' => .ok (.char '\x0b', rest)
      | 'A' => .ok (.edge fun before _ => before.isNone, rest)
      | 'z' => .ok (.edge fun _ after => after.isNone, rest)
      | 'b' => readBoundary flags rest
      | 'B' => .ok (wordEdge flags fun a b => a == b, rest)
      | '<' => .ok (wordEdge flags fun a b => !a && b, rest)
      | '>' => .ok (wordEdge flags fun a b => a && !b, rest)
      | _ => .error .escapeUnrecognized

/-! ## Sets in brackets -/

/-- The operators between the parts of a set. -/
inductive SetOp where
  | both
  | without
  | either

/-- Combines two sets. -/
def SetOp.apply (op : SetOp) (a b : CharSet) : CharSet := fun c =>
  match op with
  | .both => a c && b c
  | .without => a c && !b c
  | .either => a c != b c

/-- The parts of a set read so far: the members since the last operator, and what stands before
that operator. -/
structure Members where
  union : CharSet := fun _ => false
  pending : Option (SetOp × CharSet) := none

/-- Adds a set of members. -/
def Members.add (m : Members) (p : CharSet) : Members :=
  { m with union := fun c => m.union c || p c }

/-- The set that the parts stand for. -/
def Members.close (flags : Flags) (m : Members) : CharSet :=
  match m.pending with
  | none => m.union
  | some (op, left) => op.apply (closeSet flags left) (closeSet flags m.union)

/-- Starts the part after an operator. -/
def Members.operate (flags : Flags) (m : Members) (op : SetOp) : Members :=
  { pending := some (op, m.close flags) }

/-- Reads one member: a character as it stands, or an escape. -/
def readMember (flags : Flags) : List Char → Except Fault (Escape × List Char)
  | [] => .error .classUnclosed
  | '\\' :: rest => readEscape flags rest
  | c :: rest => .ok (.char c, rest)

/-- Reads a member, or a range of characters. -/
def readRange (flags : Flags) (rest : List Char) : Except Fault (CharSet × List Char) := do
  let single (e : Escape) : Except Fault CharSet :=
    match e with
    | .char c =>
      if flags.unicode || isAscii c then .ok fun d => d == c else .error .invalidText
    | .set p => .ok p
    | .edge _ => .error .classEscape
  let (first, rest) ← readMember flags rest
  match skipBlanks flags rest with
  | [] => throw .classUnclosed
  | '-' :: after =>
    match skipBlanks flags after with
    | [] => throw .classUnclosed
    | next :: _ =>
      if next = ']' ∨ next = '-' then
        return (← single first, '-' :: after)
      else
        let (last, rest) ← readMember flags (skipBlanks flags after)
        match first, last with
        | .char a, .char b =>
          if b < a then throw .classRange
          else if !flags.unicode && !(isAscii a && isAscii b) then throw .invalidText
          else return (fun c => a ≤ c && c ≤ b, rest)
        | _, _ => throw .classRange
  | rest => return (← single first, rest)

/-- Reads a set written `[:name:]` or `[:^name:]`, its opening bracket gone. -/
def readAsciiSet? : List Char → Option (CharSet × List Char)
  | ':' :: rest =>
    let (negated, rest) := match rest with
      | '^' :: rest => (true, rest)
      | rest => (false, rest)
    match rest.dropWhile (· != ':') with
    | ':' :: ']' :: after =>
      (asciiSet? (String.ofList (rest.takeWhile (· != ':')))).map fun p =>
        (fun c => p c != negated, after)
    | _ => none
  | _ => none

/-- Reads what follows the opening bracket of a set up to its first ordinary member: whether it
is negated, and the hyphens and the bracket that stand for themselves there. -/
def readSetStart (flags : Flags) (rest : List Char) : Bool × Members × List Char :=
  let rest := skipBlanks flags rest
  let (negated, rest) := match rest with
    | '^' :: rest => (true, skipBlanks flags rest)
    | rest => (false, rest)
  let (hyphens, rest) := leadingHyphens rest.length false rest
  let members : Members := if hyphens then Members.add {} (· == '-') else {}
  match hyphens, rest with
  | false, ']' :: rest => (negated, members.add (· == ']'), rest)
  | _, rest => (negated, members, rest)
where
  /-- Skips hyphens and the blanks after them, and tells whether there were any. -/
  leadingHyphens : Nat → Bool → List Char → Bool × List Char
    | fuel + 1, _, '-' :: rest => leadingHyphens fuel true (skipBlanks flags rest)
    | _, seen, rest => (seen, rest)

/-- Closes a set in brackets under case folding and negates it if asked. -/
def finishSet (flags : Flags) (negated : Bool) (members : Members) : Except Fault CharSet :=
  let p := closeSet flags (members.close flags)
  if negated then
    if flags.unicode then .ok fun c => !p c else .error .invalidText
  else .ok p

/-- Reads the rest of a set in brackets. -/
def readSet (flags : Flags) : Nat → (negated : Bool) → Members → List Char →
    Except Fault (CharSet × List Char)
  | 0, _, _, _ => .error .classUnclosed
  | fuel + 1, negated, members, rest =>
    match skipBlanks flags rest with
    | [] => .error .classUnclosed
    | '[' :: rest =>
      match readAsciiSet? rest with
      | some (p, rest) => readSet flags fuel negated (members.add (closeSet flags p)) rest
      | none => do
        let (innerNegated, innerMembers, rest) := readSetStart flags rest
        let (p, rest) ← readSet flags fuel innerNegated innerMembers rest
        readSet flags fuel negated (members.add p) rest
    | ']' :: rest => do return (← finishSet flags negated members, rest)
    | '&' :: '&' :: rest => readSet flags fuel negated (members.operate flags .both) rest
    | '-' :: '-' :: rest => readSet flags fuel negated (members.operate flags .without) rest
    | '~' :: '~' :: rest => readSet flags fuel negated (members.operate flags .either) rest
    | rest => do
      let (p, rest) ← readRange flags rest
      readSet flags fuel negated (members.add p) rest

/-- Reads a set in brackets, its opening bracket gone. -/
def readBracketed (flags : Flags) (rest : List Char) : Except Fault (CharSet × List Char) :=
  let (negated, members, rest) := readSetStart flags rest
  readSet flags (2 * rest.length + 2) negated members rest

end SiteFolders.Regex
