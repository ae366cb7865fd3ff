import SiteFolders.Regex.Basic

/-!
# Wildcard patterns

Patterns with `?`, `*`, `[…]`, `[!…]` and `**`. Two stars stand for any number of whole path
components and may only stand as a component of their own. A pattern is read into tokens, and a
list of tokens is matched as a regular expression (`Wildcard.regex`), which tries each token once
at each place of the text, however many stars there are.

When separators are kept, only a written slash and `**` match a slash.
-/

namespace SiteFolders

namespace Wildcard

/-- A member of a set: the characters from `first` to `last`. -/
structure Span where
  first : Char
  last : Char
deriving DecidableEq, Repr

/-- A part of a pattern. -/
inductive Token where
  | char (c : Char)
  | any
  | run
  | components
  | among (members : List Span)
  | except (members : List Span)
deriving DecidableEq, Repr

/-! ## Reading -/

/-- Reads the members between the brackets of a set: a range where a hyphen has a character on
both sides, a single character elsewhere. -/
def spans : List Char → List Span
  | a :: '-' :: b :: rest => ⟨a, b⟩ :: spans rest
  | c :: rest => ⟨c, c⟩ :: spans rest
  | [] => []

/-- Reads a set, its opening bracket gone. The first member may be a closing bracket. -/
def readSet? (text : List Char) : Option (Token × List Char) :=
  let (negated, body) := match text with
    | '!' :: rest => (true, rest)
    | rest => (false, rest)
  match body with
  | [] => none
  | first :: rest =>
    match rest.dropWhile (· != ']') with
    | [] => none
    | _ :: after =>
      let members := spans (first :: rest.takeWhile (· != ']'))
      some (if negated then .except members else .among members, after)

/-- Reads the tokens of a pattern; `before` is the character in front of the text. Three stars,
two stars glued to other characters and sets without an end are refused. -/
def readTokens : Nat → (before : Option Char) → List Char → Option (List Token)
  | 0, _, _ => none
  | _ + 1, _, [] => some []
  | fuel + 1, before, c :: rest =>
    match c, rest with
    | '*', '*' :: '*' :: _ => none
    | '*', '*' :: rest =>
      if before = none ∨ before = some '/' then
        match rest with
        | [] => some [.components]
        | '/' :: rest => (readTokens fuel (some '/') rest).map (.components :: ·)
        | _ => none
      else none
    | '*', rest => (readTokens fuel (some '*') rest).map (.run :: ·)
    | '?', rest => (readTokens fuel (some '?') rest).map (.any :: ·)
    | '[', rest => do
      let (token, rest) ← readSet? rest
      return token :: (← readTokens fuel (some ']') rest)
    | c, rest => (readTokens fuel (some c) rest).map (.char c :: ·)

/-! ## Matching -/

/-- True of the characters of a set. -/
def Span.has (s : Span) (c : Char) : Bool := s.first ≤ c && c ≤ s.last

/-- The regular expression of a token. -/
def Token.regex (keepSeparators : Bool) : Token → Regex
  | .char c => .one (· == c)
  | .any => .one fun c => !(keepSeparators && c == '/')
  | .run => .star (.one fun c => !(keepSeparators && c == '/'))
  | .components =>
    .alt .empty (.alt
      (.seq (.star (.one fun _ => true)) (.one (· == '/')))
      (.seq (.star (.one fun _ => true)) (.edge fun _ after => after.isNone)))
  | .among members => .one fun c => !(keepSeparators && c == '/') && members.any (·.has c)
  | .except members => .one fun c => !(keepSeparators && c == '/') && !members.any (·.has c)

end Wildcard

/-- A pattern that has been read. -/
structure Wildcard where
  tokens : List Wildcard.Token
deriving DecidableEq, Repr

namespace Wildcard

/-- Reads a pattern. -/
def parse? (pattern : String) : Option Wildcard :=
  let text := pattern.toList
  (readTokens (text.length + 1) none text).map Wildcard.mk

/-- The characters that match a text literally when they are written in a pattern. -/
def escape (text : List Char) : List Char :=
  text.flatMap fun c =>
    if c = '?' ∨ c = '*' ∨ c = '[' ∨ c = ']' then ['[', c, ']'] else [c]

/-- The regular expression of a pattern. -/
def regex (keepSeparators : Bool) (w : Wildcard) : Regex :=
  .concat (w.tokens.map (·.regex keepSeparators))

/-- True if the pattern matches the whole text. -/
def accepts (w : Wildcard) (keepSeparators : Bool) (text : List Char) : Bool :=
  (w.regex keepSeparators).matchesAll text

end Wildcard

end SiteFolders
