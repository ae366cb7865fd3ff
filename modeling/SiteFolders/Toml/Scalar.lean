import SiteFolders.Toml.Basic
import SiteFolders.Text.Property

/-!
# Strings, numbers and dates

The readers for the values of a TOML document that hold no other values. A reader takes the text
from where the value starts and gives the value and the text after it.
-/

namespace SiteFolders.Toml

open SiteFolders.Text

/-! ## Characters -/

/-- Blanks within a line. -/
def isInlineBlank (c : Char) : Bool := c == ' ' || c == '\t'

/-- Characters that may stand in strings and comments as they are. -/
def isPrintable (c : Char) : Bool :=
  c == '\t' || (0x20 ≤ c.toNat && c.toNat != 0x7F)

/-- Hexadecimal digits. -/
def isHex (c : Char) : Bool := c.isDigit || ('a' ≤ c && c ≤ 'f') || ('A' ≤ c && c ≤ 'F')

/-- The rest of a text after a line end, if there is one. -/
def newline? : List Char → Option (List Char)
  | '\n' :: rest => some rest
  | '\r' :: '\n' :: rest => some rest
  | _ => none

/-! ## Strings -/

/-- The character with a code point in hexadecimal, `count` digits long. -/
def readCodePoint (count : Nat) (rest : List Char) : Except Fault (Char × List Char) :=
  let digits := rest.take count
  let n := ofHex digits
  if digits.length = count ∧ digits.all isHex then
    if n < 0xD800 ∨ (0xDFFF < n ∧ n < 0x110000) then .ok (Char.ofNat n, rest.drop count)
    else .error .escape
  else .error .escape

/-- Reads what follows a backslash. -/
def readEscape : List Char → Except Fault (Char × List Char)
  | 'b' :: rest => .ok ('\x08', rest)
  | 't' :: rest => .ok ('\t', rest)
  | 'n' :: rest => .ok ('\n', rest)
  | 'f' :: rest => .ok ('\x0c', rest)
  | 'r' :: rest => .ok ('\r', rest)
  | 'e' :: rest => .ok ('\x1b', rest)
  | '"' :: rest => .ok ('"', rest)
  | '\\' :: rest => .ok ('\\', rest)
  | 'x' :: rest => readCodePoint 2 rest
  | 'u' :: rest => readCodePoint 4 rest
  | 'U' :: rest => readCodePoint 8 rest
  | _ => .error .escape

/-- Reads a string on one line up to its closing mark. -/
def readLine (mark : Char) : Nat → (found : List Char) → List Char →
    Except Fault (List Char × List Char)
  | 0, _, _ => .error .unclosed
  | _ + 1, _, [] => .error .unclosed
  | fuel + 1, found, c :: rest =>
    if c = mark then .ok (found.reverse, rest)
    else if c = '\\' ∧ mark = '"' then do
      let (d, rest) ← readEscape rest
      readLine mark fuel (d :: found) rest
    else if isPrintable c then readLine mark fuel (c :: found) rest
    else .error .text

/-- The text after blanks and line ends. -/
def skipBlankLines (rest : List Char) : List Char :=
  rest.dropWhile fun c => isInlineBlank c || c == '\n' || c == '\r'

/-- True if a backslash at the end of a line stands in front of this text: nothing but blanks
comes before the line end. -/
def endsLine (rest : List Char) : Bool := (newline? (rest.dropWhile isInlineBlank)).isSome

/-- Reads a string over several lines up to its three closing marks, before which up to two more
may stand that belong to the string. -/
def readLines (mark : Char) : Nat → (found : List Char) → List Char →
    Except Fault (List Char × List Char)
  | 0, _, _ => .error .unclosed
  | _ + 1, _, [] => .error .unclosed
  | fuel + 1, found, c :: rest =>
    if c = mark then
      let marks := 1 + (rest.takeWhile (· == mark)).length
      if marks < 3 then readLines mark fuel (c :: found) rest
      else if marks ≤ 5 then
        .ok ((List.replicate (marks - 3) mark ++ found).reverse, rest.drop (marks - 1))
      else .error .value
    else if c = '\\' ∧ mark = '"' then
      if endsLine rest then readLines mark fuel found (skipBlankLines rest)
      else do
        let (d, rest) ← readEscape rest
        readLines mark fuel (d :: found) rest
    else if c = '\r' then
      if rest.head? = some '\n' then readLines mark fuel (c :: found) rest else .error .text
    else if c = '\n' ∨ isPrintable c then readLines mark fuel (c :: found) rest
    else .error .text

/-- Reads a string that opens with one or three marks, the first of which is gone. -/
def readString (mark : Char) (rest : List Char) : Except Fault (String × List Char) := do
  let (text, rest) ←
    match rest with
    | a :: b :: more =>
      if a = mark ∧ b = mark then
        let more := (newline? more).getD more
        readLines mark (more.length + 1) [] more
      else readLine mark (rest.length + 1) [] rest
    | _ => readLine mark (rest.length + 1) [] rest
  return (String.ofList text, rest)

/-! ## Numbers -/

/-- True of digits with single underscores between them. -/
def isGrouped (digit : Char → Bool) (text : List Char) : Bool :=
  (text.splitOn '_').all fun group => !group.isEmpty && group.all digit

/-- True of grouped decimal digits without a superfluous zero at the start. -/
def isWhole (text : List Char) : Bool :=
  isGrouped Char.isDigit text && (text == ['0'] || text.head? != some '0')

/-- The value of digits in a base, underscores left out. -/
def valueOf (base : Nat) (text : List Char) : Nat :=
  (text.filter (· != '_')).foldl (fun n d => base * n + ofHex [d]) 0

/-- An integer without its sign, with a mark for the base if it is not decimal. -/
def readNatural? (signed : Bool) : List Char → Option Nat
  | '0' :: 'x' :: digits =>
    if !signed && isGrouped isHex digits then some (valueOf 16 digits) else none
  | '0' :: 'o' :: digits =>
    if !signed && isGrouped (fun c => '0' ≤ c && c ≤ '7') digits then some (valueOf 8 digits)
    else none
  | '0' :: 'b' :: digits =>
    if !signed && isGrouped (fun c => c == '0' || c == '1') digits then some (valueOf 2 digits)
    else none
  | digits => if isWhole digits then some (valueOf 10 digits) else none

/-- A text up to the first character of a set, and from there on. -/
def breakAt (p : Char → Bool) (text : List Char) : List Char × List Char :=
  (text.takeWhile (!p ·), text.dropWhile (!p ·))

/-- The least number that is too large for a finite double when it is rounded. -/
def doubleLimit : Nat := Nat.pow 2 1024 - Nat.pow 2 970

/-- Tells whether the decimal `digits · 10 ^ exponent` rounds to a finite double. -/
def fitsDouble (digits : Nat) (exponent : Int) : Bool :=
  if digits = 0 then true
  else match exponent with
  | .ofNat e => if 400 < e then false else digits * Nat.pow 10 e < doubleLimit
  | .negSucc e => if 40000 < e then true else digits < doubleLimit * Nat.pow 10 (e + 1)

/-- A floating-point number without its sign: whether it is in range. -/
def readFloat? (text : List Char) : Option Bool :=
  if text = ['i', 'n', 'f'] ∨ text = ['n', 'a', 'n'] then some true
  else
    let (mantissa, power) := breakAt (fun c => c == 'e' || c == 'E') text
    let (whole, fraction) := breakAt (· == '.') mantissa
    let fractionDigits := fraction.drop 1
    let (negative, powerDigits) := match power.drop 1 with
      | '+' :: digits => (false, digits)
      | '-' :: digits => (true, digits)
      | digits => (false, digits)
    if isWhole whole && (fraction.isEmpty || isGrouped Char.isDigit fractionDigits)
        && (power.isEmpty || isGrouped Char.isDigit powerDigits)
        && !(fraction.isEmpty && power.isEmpty) then
      let size : Int := valueOf 10 powerDigits
      let places : Int := (fractionDigits.filter (· != '_')).length
      some (fitsDouble (valueOf 10 (whole ++ fractionDigits))
        ((if negative then -size else size) - places))
    else none

/-! ## Dates and times -/

/-- The number that exactly `count` digits at the start of a text stand for. -/
def fixedDigits? (count : Nat) (text : List Char) : Option (Nat × List Char) :=
  let digits := text.take count
  if digits.length = count ∧ digits.all Char.isDigit then
    some (valueOf 10 digits, text.drop count)
  else none

/-- The number of days of a month. -/
def daysIn (year month : Nat) : Nat :=
  if month = 2 then
    if year % 4 = 0 ∧ (year % 100 ≠ 0 ∨ year % 400 = 0) then 29 else 28
  else if month = 4 ∨ month = 6 ∨ month = 9 ∨ month = 11 then 30
  else 31

/-- Reads a date, and gives the text after it. -/
def readDate? (text : List Char) : Option (List Char) := do
  let (year, rest) ← fixedDigits? 4 text
  let '-' :: rest := rest | none
  let (month, rest) ← fixedDigits? 2 rest
  let '-' :: rest := rest | none
  let (day, rest) ← fixedDigits? 2 rest
  if 1 ≤ month ∧ month ≤ 12 ∧ 1 ≤ day ∧ day ≤ daysIn year month then some rest else none

/-- Reads hours and minutes within a day. -/
def readClock? (text : List Char) : Option (List Char) := do
  let (hour, rest) ← fixedDigits? 2 text
  let ':' :: rest := rest | none
  let (minute, rest) ← fixedDigits? 2 rest
  if hour < 24 ∧ minute < 60 then some rest else none

/-- Reads a time of day; seconds and their fraction may be missing. -/
def readTime? (text : List Char) : Option (List Char) := do
  let rest ← readClock? text
  match rest with
  | ':' :: rest =>
    let (second, rest) ← fixedDigits? 2 rest
    if 60 < second then none
    else match rest with
    | '.' :: fraction =>
      if (fraction.takeWhile Char.isDigit).isEmpty then none
      else some (fraction.dropWhile Char.isDigit)
    | rest => some rest
  | rest => some rest

/-- Reads the distance from universal time, if there is one. -/
def readOffset? : List Char → Option (List Char)
  | 'Z' :: rest | 'z' :: rest => some rest
  | '+' :: rest | '-' :: rest => readClock? rest
  | rest => some rest

/-- True of a date, a time, or both. -/
def isDate (text : List Char) : Bool :=
  match readDate? text with
  | some [] => true
  | some (c :: rest) =>
    (c == 'T' || c == 't' || c == ' ') && ((readTime? rest).bind readOffset?) == some []
  | none => readTime? text == some []

/-! ## Values without quotes -/

/-- Characters that end a value without quotes. -/
def endsPlain (c : Char) : Bool :=
  isInlineBlank c || c == '\n' || c == '\r' || c == ',' || c == ']' || c == '\x7d' || c == '#'

/-- The text of a value without quotes and the text after it. A date may be followed by one
blank and a time. -/
def plainText (text : List Char) : List Char × List Char :=
  let (word, rest) := breakAt endsPlain text
  match rest with
  | ' ' :: c :: more =>
    if readDate? word = some [] ∧ c.isDigit then
      let (time, rest) := breakAt endsPlain (c :: more)
      (word ++ ' ' :: time, rest)
    else (word, rest)
  | _ => (word, rest)

/-- Reads a value without quotes. -/
def readPlain (text : List Char) : Except Fault (Value × List Char) :=
  let (word, rest) := plainText text
  if word = "true".toList then .ok (.boolean true, rest)
  else if word = "false".toList then .ok (.boolean false, rest)
  else
    let (negative, signed, digits) := match word with
      | '+' :: digits => (false, true, digits)
      | '-' :: digits => (true, true, digits)
      | digits => (false, false, digits)
    match readNatural? signed digits with
    | some n => .ok (.integer (if negative then -(n : Int) else n), rest)
    | none =>
      match readFloat? digits with
      | some inRange => .ok (.float inRange, rest)
      | none => if !signed && isDate word then .ok (.date, rest) else .error .value

end SiteFolders.Toml
