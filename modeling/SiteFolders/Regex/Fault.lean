/-!
# Faults of written expressions

The reasons for which a written regular expression is refused.
-/

namespace SiteFolders.Regex

/-- Why a written expression is refused. -/
inductive Fault where
  | groupUnclosed
  | groupUnopened
  | groupName
  | lookAround
  | backReference
  | flag
  | repetitionMissing
  | repetitionCount
  | classUnclosed
  | classRange
  | classEscape
  | escapeUnrecognized
  | escapeEnd
  | hexadecimal
  | property
  | wordBoundary
  | invalidText
  | tooLarge
deriving DecidableEq, Repr

/-- The sentence that explains a fault. -/
def Fault.message : Fault → String
  | .groupUnclosed => "unclosed group"
  | .groupUnopened => "unopened group"
  | .groupName => "invalid or duplicate capture group name"
  | .lookAround => "look-around is not supported"
  | .backReference => "backreferences are not supported"
  | .flag => "invalid group flags"
  | .repetitionMissing => "repetition operator missing expression"
  | .repetitionCount => "invalid repetition count"
  | .classUnclosed => "unclosed character class"
  | .classRange => "invalid character class range"
  | .classEscape => "invalid escape sequence in a character class"
  | .escapeUnrecognized => "unrecognized escape sequence"
  | .escapeEnd => "incomplete escape sequence"
  | .hexadecimal => "invalid hexadecimal escape"
  | .property => "character property not found"
  | .wordBoundary => "invalid word boundary assertion"
  | .invalidText => "pattern can match invalid text"
  | .tooLarge => "compiled expression exceeds the size limit"

end SiteFolders.Regex
