import SiteFolders.Settings.Basic
import SiteFolders.Toml.Parser

/-!
# Settings from TOML

How the values of a document become settings. Keys that mean nothing are passed over, but their
numbers have to be in range. A group of settings may also be written as an array, its items in
the order of the fields, and a word as a table with that word as its only key.
-/

namespace SiteFolders.Settings

open SiteFolders.Toml (Value)

/-- Why a document holds no settings. -/
inductive DecodeFault where
  | document (fault : Toml.Fault)
  | type (expected : String)
  | word (found : String)
  | number
deriving DecidableEq

/-- The sentence that explains a fault. -/
def DecodeFault.message : DecodeFault → String
  | .document fault => fault.message
  | .type expected => s!"invalid type, expected {expected}"
  | .word found => s!"unknown variant {found}"
  | .number => "number out of range"

/-! ## Numbers that are passed over -/

mutual

/-- True if all numbers in a value are in range. -/
def inRange : Value → Bool
  | .integer n => -(2 ^ 127) ≤ n && n < 2 ^ 128
  | .float ok => ok
  | .array items => allInRange items
  | .tables items => allInRange items
  | .table _ entries => entriesInRange entries
  | _ => true

/-- True if all numbers in all values are in range. -/
def allInRange : List Value → Bool
  | [] => true
  | v :: rest => inRange v && allInRange rest

/-- True if all numbers in all entries are in range. -/
def entriesInRange : List (String × Value) → Bool
  | [] => true
  | (_, v) :: rest => inRange v && entriesInRange rest

end

/-! ## Simple values -/

/-- A truth value. -/
def asBool : Value → Except DecodeFault Bool
  | .boolean b => .ok b
  | _ => .error (.type "a boolean")

/-- A text. -/
def asText : Value → Except DecodeFault String
  | .text s => .ok s
  | _ => .error (.type "a string")

/-- A list of texts. -/
def asTexts : Value → Except DecodeFault (List String)
  | .array items => items.mapM asText
  | .tables items => items.mapM asText
  | _ => .error (.type "a sequence")

/-- Texts by key, in rising order of the keys. -/
def asTextTable : Value → Except DecodeFault (List (String × String))
  | .table _ entries => do
    let texts ← entries.mapM fun (key, v) => do return (key, ← asText v)
    return texts.mergeSort fun a b => decide (a.1 ≤ b.1)
  | _ => .error (.type "a map")

/-- True of arrays and tables that hold nothing. -/
def isHollow : Value → Bool
  | .array items => items.isEmpty
  | .tables items => items.isEmpty
  | .table _ entries => entries.isEmpty
  | _ => false

/-- One of several words. -/
def asWord {α : Type} (words : List (String × α)) : Value → Except DecodeFault α
  | .text s => ((words.lookup s).map Except.ok).getD (.error (.word s))
  | .table _ [(key, payload)] =>
    match words.lookup key with
    | none => .error (.word key)
    | some a => if isHollow payload then .ok a else .error (.type "an empty table")
  | _ => .error (.type "a string or a table")

/-! ## Groups of settings -/

/-- The fields of a group with their values; numbers under other keys have to be in range. -/
def fieldsOf (names : List String) : Value → Except DecodeFault (List (String × Value))
  | .table _ entries =>
    if entriesInRange (entries.filter fun e => !names.contains e.1) then .ok entries
    else .error .number
  | .array items => .ok (names.zip items)
  | .tables items => .ok (names.zip items.reverse)
  | _ => .error (.type "a table")

/-- The value of a field, or a standard value if it is missing. -/
def field {α : Type} (entries : List (String × Value)) (name : String) (standard : α)
    (read : Value → Except DecodeFault α) : Except DecodeFault α :=
  match entries.lookup name with
  | some v => read v
  | none => .ok standard

/-- The exclusion rules in a value. -/
def asExclusion (v : Value) : Except DecodeFault ExclusionRules := do
  let entries ← fieldsOf ["filenames", "patterns", "extensions", "regex"] v
  return {
    filenames := ← field entries "filenames" [] asTexts
    patterns := ← field entries "patterns" [] asTexts
    extensions := ← field entries "extensions" [] asTexts
    regex := ← field entries "regex" [] asTexts }

/-- The settings in a value, without exclusion rules. -/
def asOrganize (v : Value) : Except DecodeFault Settings := do
  let entries ← fieldsOf
    ["enumerator", "loose_mentions", "on_rewrite_error", "skip_dirs", "reserved", "extensions"] v
  return {
    lister := ← field entries "enumerator" .walk (asWord [("walk", .walk), ("glob", .glob)])
    looseMentions := ← field entries "loose_mentions" true asBool
    onFailure := ← field entries "on_rewrite_error" .skip
      (asWord [("skip", .skip), ("abort", .abort)])
    skippedDirs := ← field entries "skip_dirs" standardSkippedDirs asTexts
    reserved := ← field entries "reserved" [] asTexts
    extensions := ← field entries "extensions" [] asTextTable }

/-- The settings in the entries of a document. -/
def ofEntries (entries : Toml.Entries) : Except DecodeFault Settings := do
  let entries ← fieldsOf ["organize", "exclude"] (.table .header entries)
  let settings ← field entries "organize" {} asOrganize
  let exclusion ← field entries "exclude" {} asExclusion
  return { settings with exclusion }

/-- The settings that a document holds. -/
def ofToml (document : String) : Except SettingsError Settings :=
  match Toml.parse document with
  | .error fault => .error (.invalid (DecodeFault.document fault).message)
  | .ok entries =>
    match ofEntries entries with
    | .ok settings => .ok settings
    | .error fault => .error (.invalid fault.message)

end SiteFolders.Settings
