import SiteFolders.Regex.Basic
import SiteFolders.Text.Folding
import SiteFolders.Text.Property

/-!
# Passes

A pass finds mentions of one file in one kind of context, such as `href="…"` or a PHP `include`.
A mention is an opening, a run of `./` and `../` segments, the file name and a closing, all four
regular expressions; `Pass.hits` lists its readings at one place in order of preference. The
table `Pass.all` goes from the most specific context to a loose mention between delimiters, and
its order matters: each pass works on what the passes before it have written.
-/

namespace SiteFolders

open SiteFolders.Text

namespace Reference

/-- How a mention is written anew. -/
inductive Style where
  /-- The opening, the new reference, the closing. -/
  | delimited
  /-- The keyword, and the new reference in parentheses and double quotes. -/
  | call
  /-- The keyword, a blank, and the new reference in double quotes. -/
  | statement
deriving DecidableEq, Repr

/-- A kind of context. -/
structure Pass where
  name : String
  /-- The written form, with places for the leading segments and the file name. -/
  template : String
  ignoreCase : Bool
  style : Style
  /-- The start of a mention, which is kept. -/
  opening : Regex
  /-- What stands between the start and the leading segments, which is not kept. -/
  bridge : Regex
  closing : Regex
  /-- True if the closing is kept. -/
  keepsClosing : Bool
  /-- What the character after a mention has to be; the character is not part of the mention. -/
  ahead : Option (Char → Bool)

/-! ## Parts of mentions -/

/-- One segment in front of a file name: a dot, a dot and a slash, or two dots and a slash. -/
def segment : Regex :=
  .alt (.seq (.one (· == '.')) (.opt (.one (· == '/'))))
    (.seq (.one (· == '.')) (.seq (.one (· == '.')) (.one (· == '/'))))

/-- Any run of segments in front of a file name. -/
def lead : Regex := .star segment

/-- A keyword in any letter case. -/
def word (s : String) : Regex := .literal sameFold s.toList

/-- One character. -/
def mark (c : Char) : Regex := .one (· == c)

/-- Either quote. -/
def quote : Regex := .one fun c => c == '"' || c == '\x27'

/-- Blanks, or none. -/
def blanks : Regex := .star (.one isBlank)

/-- At least one blank. -/
def someBlanks : Regex := .plus (.one isBlank)

/-- The keywords of PHP that read another file. -/
def phpKeyword : Regex :=
  .choice [word "include_once", word "include", word "require_once", word "require"]

/-- The characters that may follow a loose mention. -/
def closesLoose (c : Char) : Bool := c == '"' || c == '\x27' || c == ')' || isBlank c

/-- The text that stands for a literal name in a written pattern: a backslash before every
character with a meaning of its own. -/
def escaped (name : List Char) : List Char :=
  name.flatMap fun c =>
    if "\\.+*?()|[]\x7b\x7d^$#&-~".toList.contains c then ['\\', c] else [c]

/-! ## The table -/

/-- A pass that keeps what stands around the reference. -/
def Pass.keeping (name template : String) (opening closing : List Regex) : Pass where
  name := name
  template := template
  ignoreCase := true
  style := .delimited
  opening := .concat opening
  bridge := .empty
  closing := .concat closing
  keepsClosing := true
  ahead := none

/-- Attributes named `href`. -/
def Pass.href : Pass :=
  .keeping "href" "(href\\s*=\\s*[\"\x27])\x7blead\x7d\x7bname\x7d([\"\x27])"
    [word "href", blanks, mark '=', blanks, quote] [quote]

/-- Attributes named `src`. -/
def Pass.src : Pass :=
  .keeping "src" "(src\\s*=\\s*[\"\x27])\x7blead\x7d\x7bname\x7d([\"\x27])"
    [word "src", blanks, mark '=', blanks, quote] [quote]

/-- Stylesheet values `url(…)`, with or without quotes. -/
def Pass.cssUrl : Pass :=
  .keeping "css-url" "(url\\(\\s*[\"\x27]?)\x7blead\x7d\x7bname\x7d([\"\x27]?\\s*\\))"
    [word "url", mark '(', blanks, .opt quote] [.opt quote, blanks, mark ')']

/-- Script imports `from "…"`. -/
def Pass.importFrom : Pass :=
  .keeping "import-from" "(from\\s+[\"\x27])\x7blead\x7d\x7bname\x7d([\"\x27])"
    [word "from", someBlanks, quote] [quote]

/-- Script imports `import "…"`. -/
def Pass.importBare : Pass :=
  .keeping "import-bare" "(import\\s+[\"\x27])\x7blead\x7d\x7bname\x7d([\"\x27])"
    [word "import", someBlanks, quote] [quote]

/-- Stylesheet imports, with or without `url(…)`. -/
def Pass.cssImport : Pass :=
  .keeping "css-import"
    "(@import\\s+(?:url\\(\\s*)?[\"\x27])\x7blead\x7d\x7bname\x7d([\"\x27]\\s*\\)?;)"
    [word "@import", someBlanks, .opt (.concat [word "url", mark '(', blanks]), quote]
    [quote, blanks, .opt (mark ')'), mark ';']

/-- PHP includes written as calls. -/
def Pass.phpIncludeCall : Pass where
  name := "php-include-call"
  template := "(include_once|include|require_once|require)"
    ++ "\\s*\\(\\s*[\"\x27]\x7blead\x7d\x7bname\x7d[\"\x27]\\s*\\)"
  ignoreCase := true
  style := .call
  opening := phpKeyword
  bridge := .concat [blanks, mark '(', blanks, quote]
  closing := .concat [quote, blanks, mark ')']
  keepsClosing := false
  ahead := none

/-- PHP includes written as statements. -/
def Pass.phpIncludeStatement : Pass where
  name := "php-include-statement"
  template := "(include_once|include|require_once|require)"
    ++ "\\s+[\"\x27]\x7blead\x7d\x7bname\x7d[\"\x27]"
  ignoreCase := true
  style := .statement
  opening := phpKeyword
  bridge := .concat [someBlanks, quote]
  closing := quote
  keepsClosing := false
  ahead := none

/-- Loose mentions between delimiters, in exact letter case. -/
def Pass.loose : Pass where
  name := "loose"
  template := "([\"\x27(\\s])\x7blead\x7d\x7bname\x7d"
  ignoreCase := false
  style := .delimited
  opening := .one fun c => c == '"' || c == '\x27' || c == '(' || isBlank c
  bridge := .empty
  closing := .empty
  keepsClosing := false
  ahead := some closesLoose

/-- All passes in the order in which they are applied. -/
def Pass.all : List Pass :=
  [.href, .src, .cssUrl, .importFrom, .importBare, .cssImport, .phpIncludeCall,
    .phpIncludeStatement, .loose]

/-- The passes of an update, with or without the loose one. -/
def passes (loose : Bool) : List Pass :=
  if loose then Pass.all else Pass.all.filter (·.ahead.isNone)

/-! ## Readings at one place -/

/-- A mention found at one place. -/
structure Hit where
  /-- The start of the mention. -/
  opening : List Char
  /-- The end of the mention, if the pass keeps it. -/
  closing : List Char
  /-- The number of characters of the whole mention. -/
  length : Nat
  /-- The character after the mention. -/
  after : Option Char
deriving DecidableEq, Repr

/-- The file name as the pass compares it. -/
def Pass.nameRegex (pass : Pass) (name : List Char) : Regex :=
  .literal (if pass.ignoreCase then sameFold else fun a b => a == b) name

/-- The readings of a mention of `name` at the start of a text, the preferred ones first. -/
def Pass.hits (pass : Pass) (name : List Char) (text : List Char) : List Hit :=
  (pass.opening.lengths none text).flatMap fun a =>
    (pass.bridge.lengths none (text.drop a)).flatMap fun b =>
      (lead.lengths none (text.drop (a + b))).flatMap fun c =>
        ((pass.nameRegex name).lengths none (text.drop (a + b + c))).flatMap fun d =>
          (pass.closing.lengths none (text.drop (a + b + c + d))).map fun e =>
            { opening := text.take a
              closing := if pass.keepsClosing then (text.drop (a + b + c + d)).take e else []
              length := a + b + c + d + e
              after := text[a + b + c + d + e]? }

/-- The preferred reading at the start of a text, whatever follows it. -/
def Pass.firstHit? (pass : Pass) (name : List Char) (text : List Char) : Option Hit :=
  (pass.hits name text).head?

/-- True if the character after a mention is one that the pass asks for. -/
def Pass.accepts (pass : Pass) (hit : Hit) : Bool :=
  match pass.ahead with
  | none => true
  | some test => hit.after.any test

/-- The mention that is replaced at the start of a text: the preferred reading, if what follows
it is accepted. -/
def Pass.mention? (pass : Pass) (name : List Char) (text : List Char) : Option Hit :=
  (pass.firstHit? name text).filter pass.accepts

end Reference

end SiteFolders
