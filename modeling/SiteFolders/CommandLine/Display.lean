import SiteFolders.Run

/-!
# Display

What the program shows. A line of output is a value, so that what is shown can be spoken about
apart from colours and streams; `Shown.render` writes it. Colours are escape codes around the
text; padding stands inside them.
-/

namespace SiteFolders.CommandLine

/-- Something that is shown. -/
inductive Shown where
  | success (message : String)
  | error (message : String)
  | warning (message : String)
  | info (message : String)
  | plain (message : String)
  | header (message : String)
  | dryRun (message : String)
  /-- What is wrong with the arguments. -/
  | usage (message : String)
  /-- A table of file counts by folder. -/
  | summary (counts : List (String × Nat)) (total : Nat)
deriving DecidableEq

/-- Text for the two output streams. -/
structure Output where
  out : String := ""
  err : String := ""

instance : Append Output := ⟨fun a b => ⟨a.out ++ b.out, a.err ++ b.err⟩⟩

/-! ## Colours -/

/-- The code that ends a style. -/
def resetCode : List Char := ['\x1b', '[', '0', 'm']

/-- Starts the style anew after every reset inside a text. -/
def restyle (code : List Char) : List Char → List Char
  | '\x1b' :: '[' :: '0' :: 'm' :: rest => resetCode ++ code ++ restyle code rest
  | c :: rest => c :: restyle code rest
  | [] => []

/-- A text in a style, given by its numbers. -/
def styled (color : Bool) (style : String) (text : String) : String :=
  if color then
    let code := '\x1b' :: '[' :: style.toList ++ ['m']
    String.ofList (code ++ restyle code text.toList ++ resetCode)
  else text

/-- A text with blanks up to a width in characters. -/
def padded (width : Nat) (text : String) : String :=
  text ++ String.ofList (List.replicate (width - text.length) ' ')

/-! ## Tables -/

/-- The noun for a number of files. -/
def filesNoun (n : Nat) : String := if n = 1 then "file" else "files"

/-- A row of a table: a folder and the number of its files. -/
def summaryRow (name count : String) (n : Nat) : String :=
  name ++ " | " ++ count ++ " " ++ filesNoun n

/-- The lines of a table of counts, folders in rising order. -/
def summaryLines (color : Bool) (counts : List (String × Nat)) (total : Nat) : List String :=
  let sorted := counts.mergeSort fun a b => decide (a.1 ≤ b.1)
  let width := (sorted.map fun c => c.1.utf8ByteSize).foldl max "Category".utf8ByteSize
  let rule := String.ofList (List.replicate (width + 10) '-')
  let head := styled color "1" (padded width "Category") ++ " | " ++ styled color "1" "Files"
  let rows := sorted.map fun (name, n) =>
    summaryRow (padded width name) (styled color "32" (toString n)) n
  let last := summaryRow (styled color "1" (padded width "Total"))
    (styled color "1;32" (toString total)) total
  [head, rule] ++ rows ++ [rule, last]

/-- A text on a line of its own. -/
def line (text : String) : String := text ++ "\n"

/-- The header of a section. -/
def headerText (color : Bool) (title : String) : String :=
  line ("\n" ++ styled color "1" title)

/-- Writes what is shown. -/
def Shown.render (color : Bool) : Shown → Output
  | .success m => { out := line (styled color "32" "✓" ++ " " ++ m) }
  | .error m => { err := line (styled color "31" "✗" ++ " " ++ m) }
  | .warning m => { out := line (styled color "33" "⚠" ++ " " ++ m) }
  | .info m => { out := line (styled color "36" m) }
  | .plain m => { out := line m }
  | .header m => { out := headerText color m }
  | .dryRun m => { out := line (styled color "33" ("[DRY RUN] " ++ m)) }
  | .usage m => { err := line ("error: " ++ m) }
  | .summary counts total =>
    { out := headerText color "SUMMARY"
        ++ String.join ((summaryLines color counts total).map line) }

/-- Writes everything that is shown, in order. -/
def renderAll (color : Bool) (shown : List Shown) : Output :=
  shown.foldl (fun output s => output ++ s.render color) {}

/-- What a console shows of a notice; progress is not drawn. -/
def Shown.ofNotice? : Notice → Option Shown
  | .success m => some (.success m)
  | .warning m => some (.warning m)
  | .error m => some (.error m)
  | .info m => some (.info m)
  | .started _ | .scanned _ | .finished => none

end SiteFolders.CommandLine
