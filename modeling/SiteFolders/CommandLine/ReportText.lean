import SiteFolders.Run

/-!
# Reports as JSON

A report is written as an indented JSON document. The printer knows texts, numbers, arrays and
objects, which is all that a report needs.
-/

namespace SiteFolders.CommandLine

/-- A JSON value. -/
inductive Json where
  | text (s : String)
  | number (n : Nat)
  | array (items : List Json)
  | object (fields : List (String × Json))

namespace Json

/-- A digit of a hexadecimal numeral. -/
def hexDigit (n : Nat) : Char := (Nat.digitChar n)

/-- A character inside a quoted text. -/
def escapeChar (c : Char) : List Char :=
  if c = '"' then ['\\', '"']
  else if c = '\\' then ['\\', '\\']
  else if c = '\n' then ['\\', 'n']
  else if c = '\r' then ['\\', 'r']
  else if c = '\t' then ['\\', 't']
  else if c = '\x08' then ['\\', 'b']
  else if c = '\x0c' then ['\\', 'f']
  else if c.toNat < 0x20 then
    ['\\', 'u', '0', '0', hexDigit (c.toNat / 16), hexDigit (c.toNat % 16)]
  else [c]

/-- A text in quotes. -/
def quoted (s : String) : String :=
  String.ofList ('"' :: s.toList.flatMap escapeChar ++ ['"'])

/-- The start of a line at a depth. -/
def newLine (depth : Nat) : String := "\n" ++ String.ofList (List.replicate (2 * depth) ' ')

mutual

/-- Writes a value that starts at a depth. -/
def write (depth : Nat) : Json → String
  | .text s => quoted s
  | .number n => toString n
  | .array [] => "[]"
  | .array (item :: items) =>
    "[" ++ newLine (depth + 1) ++ write (depth + 1) item ++ writeItems (depth + 1) items
      ++ newLine depth ++ "]"
  | .object [] => "\x7b\x7d"
  | .object ((key, value) :: fields) =>
    "\x7b" ++ newLine (depth + 1) ++ quoted key ++ ": " ++ write (depth + 1) value
      ++ writeFields (depth + 1) fields ++ newLine depth ++ "\x7d"

/-- Writes the items of an array after the first one. -/
def writeItems (depth : Nat) : List Json → String
  | [] => ""
  | item :: items => "," ++ newLine depth ++ write depth item ++ writeItems depth items

/-- Writes the fields of an object after the first one. -/
def writeFields (depth : Nat) : List (String × Json) → String
  | [] => ""
  | (key, value) :: fields =>
    "," ++ newLine depth ++ quoted key ++ ": " ++ write depth value ++ writeFields depth fields

end

end Json

/-- A file that has moved. -/
def movedJson (m : Reference.Moved) : Json :=
  .object [("old_name", .text m.oldName), ("new_relative_path", .text m.newRelative),
    ("new_absolute_path", .text m.target.text)]

/-- A file that was passed over. -/
def skipJson (s : Skip) : Json :=
  .object [("file_path", .text s.path.text), ("reason", .text s.cause.reason)]

/-- A report with the time at which its run started. -/
def reportJson (startedAt : String) (r : Report) : Json :=
  .object [("root", .text r.root.text), ("started_at", .text startedAt),
    ("moved", .array (r.moved.map movedJson)), ("skipped", .array (r.skipped.map skipJson)),
    ("scanned", .number r.scanned),
    ("rewritten", .array (r.updated.map fun p => .text p.text)),
    ("rewrite_failures", .array (r.failures.map skipJson))]

end SiteFolders.CommandLine
