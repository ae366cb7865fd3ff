/-!
# TOML documents

The values of a TOML document and the reasons for which a document is refused. A table remembers
how it came about, because that decides whether later lines may add to it.
-/

namespace SiteFolders.Toml

/-- Why a document is refused. -/
inductive Fault where
  | key
  | value
  | text
  | escape
  | number
  | date
  | unclosed
  | line
  | duplicate
  | extended
  | tooDeep
deriving DecidableEq, Repr

/-- The sentence that explains a fault. -/
def Fault.message : Fault → String
  | .key => "invalid key"
  | .value => "invalid value"
  | .text => "invalid character in a string"
  | .escape => "invalid escape sequence"
  | .number => "invalid number"
  | .date => "invalid date or time"
  | .unclosed => "unclosed string, array or table"
  | .line => "unexpected text at the end of a line"
  | .duplicate => "duplicate key"
  | .extended => "cannot extend a value that is no open table"
  | .tooDeep => "values are nested too deeply"

/-- How a table came about. -/
inductive Origin where
  /-- By its own header. -/
  | header
  /-- As a step of another table's header. -/
  | step
  /-- As a step of a dotted key. -/
  | dotted
  /-- Written in braces. -/
  | braces
deriving DecidableEq, Repr

/-- A value of a document. -/
inductive Value where
  | text (s : String)
  | integer (n : Int)
  /-- A floating-point number; only whether it is in range is known. -/
  | float (inRange : Bool)
  | boolean (b : Bool)
  | date
  | array (items : List Value)
  /-- The tables of one repeated header, the latest first. -/
  | tables (items : List Value)
  | table (origin : Origin) (entries : List (String × Value))

/-- The entries of a table in the order in which they were written. -/
abbrev Entries := List (String × Value)

namespace Entries

/-- The value of a key. -/
def get? (entries : Entries) (key : String) : Option Value := entries.lookup key

/-- Gives a key a value, in its place if it has one already. -/
def set : Entries → String → Value → Entries
  | [], key, value => [(key, value)]
  | (k, v) :: rest, key, value =>
    if k = key then (key, value) :: rest else (k, v) :: set rest key value

end Entries

/-! ## Tables inside tables -/

/-- Changes the table at the end of a path of keys, making the tables that are missing on the
way. A dotted key may not enter a table that has a header. -/
def changeAt (dotted : Bool) (change : Origin → Entries → Except Fault (Origin × Entries)) :
    List String → Origin → Entries → Except Fault (Origin × Entries)
  | [], origin, entries => change origin entries
  | key :: path, origin, entries => do
    let inner ←
      match entries.get? key with
      | none => do
        let (o, e) ← changeAt dotted change path (if dotted then .dotted else .step) []
        pure (Value.table o e)
      | some (.table o e) =>
        if o = .braces then throw .extended
        else if dotted ∧ o = .header then throw .duplicate
        else do
          let (o, e) ← changeAt dotted change path o e
          pure (Value.table o e)
      | some (.tables (.table o e :: older)) => do
        let (o, e) ← changeAt dotted change path o e
        pure (Value.tables (.table o e :: older))
      | some _ => throw .extended
    return (origin, entries.set key inner)

/-- Adds the value of a key, which may be dotted, to a table. -/
def addKey (path : List String) (key : String) (value : Value) (origin : Origin)
    (entries : Entries) : Except Fault (Origin × Entries) :=
  changeAt (!path.isEmpty) (fun origin entries =>
    if (origin == .dotted) == path.isEmpty then .error .duplicate
    else if (entries.get? key).isSome then .error .duplicate
    else .ok (origin, entries.set key value)) path origin entries

/-- Opens the table of a header: it is new, or has only been a step of other headers so far. -/
def openTable (path : List String) (key : String) (origin : Origin) (entries : Entries) :
    Except Fault (Origin × Entries) :=
  changeAt false (fun origin entries =>
    match entries.get? key with
    | none => .ok (origin, entries.set key (.table .header []))
    | some (.table .step inner) => .ok (origin, entries.set key (.table .header inner))
    | some _ => .error .duplicate) path origin entries

/-- Opens another table of a repeated header. -/
def openRepeated (path : List String) (key : String) (origin : Origin) (entries : Entries) :
    Except Fault (Origin × Entries) :=
  changeAt false (fun origin entries =>
    match entries.get? key with
    | none => .ok (origin, entries.set key (.tables [.table .header []]))
    | some (.tables items) => .ok (origin, entries.set key (.tables (.table .header [] :: items)))
    | some _ => .error .duplicate) path origin entries

end SiteFolders.Toml
