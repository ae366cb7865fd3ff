import SiteFolders.Toml.Scalar

/-!
# Reading TOML documents

Keys, arrays, tables in braces and the lines of a document. Tables in braces and arrays may span
lines and end in a comma. `parse` gives the entries of the top-level table.
-/

namespace SiteFolders.Toml

/-! ## Blanks and comments -/

/-- The text after blanks within a line. -/
def skipBlanks (text : List Char) : List Char := text.dropWhile isInlineBlank

/-- Drops a comment up to the end of its line. -/
def skipComment : List Char → Except Fault (List Char)
  | '#' :: rest =>
    let (comment, after) := breakAt (fun c => c == '\n' || c == '\r') rest
    if comment.all isPrintable then .ok after else .error .text
  | rest => .ok rest

/-- Drops blanks, comments and line ends. -/
def skipLines : Nat → List Char → Except Fault (List Char)
  | 0, rest => .ok rest
  | fuel + 1, rest => do
    let rest ← skipComment (skipBlanks rest)
    match newline? rest with
    | some rest => skipLines fuel rest
    | none => if rest.head? = some '\r' then throw .line else return rest

/-- Drops what may stand between a value and the end of its line, and the line end. -/
def endLine (rest : List Char) : Except Fault (List Char) := do
  let rest ← skipComment (skipBlanks rest)
  match newline? rest with
  | some rest => return rest
  | none => if rest.isEmpty then return rest else throw .line

/-! ## Keys -/

/-- Characters of keys without quotes. -/
def isBare (c : Char) : Bool := c.isAlphanum || c == '_' || c == '-'

/-- Reads one part of a key. -/
def readKeyPart : List Char → Except Fault (String × List Char)
  | '"' :: rest => do
    let (key, rest) ← readLine '"' (rest.length + 1) [] rest
    return (String.ofList key, rest)
  | '\x27' :: rest => do
    let (key, rest) ← readLine '\x27' (rest.length + 1) [] rest
    return (String.ofList key, rest)
  | rest =>
    let key := rest.takeWhile isBare
    if key.isEmpty then .error .key else .ok (String.ofList key, rest.dropWhile isBare)

/-- Reads a key and the blanks around it: the parts before the last one, and the last one. -/
def readKey : Nat → (path : List String) → List Char →
    Except Fault (List String × String × List Char)
  | 0, _, _ => .error .key
  | fuel + 1, path, rest => do
    let (key, rest) ← readKeyPart (skipBlanks rest)
    match skipBlanks rest with
    | '.' :: rest => readKey fuel (key :: path) rest
    | rest => return (path.reverse, key, rest)

/-! ## Values -/

/-- How deep values may be nested. -/
def depthLimit : Nat := 80

mutual

/-- Reads a value; `depth` is the number of values around it. -/
def readValue : Nat → (depth : Nat) → List Char → Except Fault (Value × List Char)
  | 0, _, _ => .error .value
  | fuel + 1, depth, text =>
    match text with
    | '"' :: rest => do
      let (s, rest) ← readString '"' rest
      return (.text s, rest)
    | '\x27' :: rest => do
      let (s, rest) ← readString '\x27' rest
      return (.text s, rest)
    | '[' :: rest =>
      if depth = depthLimit then .error .tooDeep else readItems fuel (depth + 1) [] rest
    | '\x7b' :: rest =>
      if depth = depthLimit then .error .tooDeep else readEntries fuel (depth + 1) [] rest
    | text => readPlain text

/-- Reads the items of an array after those in `found`, which are in reverse. -/
def readItems : Nat → (depth : Nat) → (found : List Value) → List Char →
    Except Fault (Value × List Char)
  | 0, _, _, _ => .error .unclosed
  | fuel + 1, depth, found, text => do
    match ← skipLines text.length text with
    | ']' :: rest => return (.array found.reverse, rest)
    | text =>
      let (value, rest) ← readValue fuel depth text
      match ← skipLines rest.length rest with
      | ',' :: rest => readItems fuel depth (value :: found) rest
      | ']' :: rest => return (.array (value :: found).reverse, rest)
      | _ => throw .unclosed

/-- Reads the entries of a table in braces after those that it has. -/
def readEntries : Nat → (depth : Nat) → (entries : Entries) → List Char →
    Except Fault (Value × List Char)
  | 0, _, _, _ => .error .unclosed
  | fuel + 1, depth, entries, text => do
    match ← skipLines text.length text with
    | '\x7d' :: rest => return (.table .braces entries, rest)
    | text =>
      let (path, key, rest) ← readKey text.length [] text
      match rest with
      | '=' :: rest =>
        let (value, rest) ← readValue fuel depth (skipBlanks rest)
        let (_, entries) ← addKey path key value .braces entries
        match ← skipLines rest.length rest with
        | ',' :: rest => readEntries fuel depth entries rest
        | '\x7d' :: rest => return (.table .braces entries, rest)
        | _ => throw .unclosed
      | _ => throw .key

end

/-! ## Documents -/

/-- Adds a value to the table whose header was read last. -/
def addBelow (header : List String) (path : List String) (key : String) (value : Value)
    (entries : Entries) : Except Fault Entries := do
  let (_, entries) ← changeAt false (addKey path key value) header .header entries
  return entries

/-- Reads the lines of a document below a header. -/
def readDocument : Nat → (header : List String) → Entries → List Char → Except Fault Entries
  | 0, _, _, _ => .error .line
  | fuel + 1, header, entries, text => do
    match ← skipLines text.length text with
    | [] => return entries
    | '[' :: '[' :: rest =>
      let (path, key, rest) ← readKey rest.length [] rest
      match rest with
      | ']' :: ']' :: rest =>
        let (_, entries) ← openRepeated path key .header entries
        readDocument fuel (path ++ [key]) entries (← endLine rest)
      | _ => throw .key
    | '[' :: rest =>
      let (path, key, rest) ← readKey rest.length [] rest
      match rest with
      | ']' :: rest =>
        let (_, entries) ← openTable path key .header entries
        readDocument fuel (path ++ [key]) entries (← endLine rest)
      | _ => throw .key
    | text =>
      let (path, key, rest) ← readKey text.length [] text
      match rest with
      | '=' :: rest =>
        let (value, rest) ← readValue (rest.length + 1) 0 (skipBlanks rest)
        let entries ← addBelow header path key value entries
        readDocument fuel header entries (← endLine rest)
      | _ => throw .key

/-- Reads a document, which may start with a byte order mark. -/
def parse (document : String) : Except Fault Entries :=
  let text := match document.toList with
    | '\ufeff' :: rest => rest
    | text => text
  readDocument (text.length + 1) [] [] text

end SiteFolders.Toml
