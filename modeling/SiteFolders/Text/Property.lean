import SiteFolders.Text.CategoryTable

/-!
# Properties of characters

White space, general categories, scripts and the derived properties that casing and word
characters need. Everything is read off the tables of `CategoryTable`; the derived properties
follow their definitions in the Unicode Standard.
-/

namespace SiteFolders.Text

/-! ## White space -/

/-- The characters with the property White_Space. -/
def isBlank (c : Char) : Bool :=
  let n := c.toNat
  (9 ≤ n && n ≤ 13) || n == 0x20 || n == 0x85 || n == 0xA0 || n == 0x1680
    || (0x2000 ≤ n && n ≤ 0x200A) || n == 0x2028 || n == 0x2029 || n == 0x202F || n == 0x205F
    || n == 0x3000

/-! ## Tables written as text -/

/-- The value of a hexadecimal numeral; other characters count as zero. -/
def ofHex (digits : List Char) : Nat :=
  digits.foldl (fun n d =>
    16 * n + (if d.isDigit then d.toNat - '0'.toNat
      else if 'A' ≤ d && d ≤ 'F' then d.toNat - 'A'.toNat + 10
      else if 'a' ≤ d && d ≤ 'f' then d.toNat - 'a'.toNat + 10 else 0)) 0

/-- The tokens of a table: where each value starts, and the value, which is `width` letters long. -/
def readTable (width : Nat) (text : String) : Array (Nat × String) :=
  let tokens := (text.toList.map fun c => if c = '\n' then ' ' else c).splitOn ' '
  ((tokens.filter (!·.isEmpty)).map fun token =>
    let digits := token.length - width
    (ofHex (token.take digits), String.ofList (token.drop digits))).toArray

/-- The place of the last token that starts at or before `n`, searched between `lo` and `hi`. -/
def lastAtOrBefore (table : Array (Nat × String)) (n lo hi : Nat) : Nat :=
  if hi ≤ lo + 1 then lo
  else
    let mid := lo + (hi - lo) / 2
    match table[mid]? with
    | some (start, _) =>
      if start ≤ n then lastAtOrBefore table n mid hi else lastAtOrBefore table n lo mid
    | none => lo
termination_by hi - lo

/-- The value that holds at `n`. -/
def valueAt (table : Array (Nat × String)) (n : Nat) : String :=
  match table[lastAtOrBefore table n 0 table.size]? with
  | some (_, value) => value
  | none => ""

/-- True of the code points of the listed ranges, ends included. -/
def inRanges (ranges : List (Nat × Nat)) (n : Nat) : Bool :=
  ranges.any fun (first, last) => first ≤ n && n ≤ last

/-! ## Categories, scripts and what follows from them -/

/-- The table of general categories. -/
def generalCategories : Array (Nat × String) := readTable 2 generalCategoryText

/-- The table of scripts. -/
def scripts : Array (Nat × String) := readTable 4 scriptText

/-- The two-letter general category of a character. -/
def generalCategory (c : Char) : String := valueAt generalCategories c.toNat

/-- The short name of a character's script. -/
def script (c : Char) : String := valueAt scripts c.toNat

/-- Letters, letter numbers and the marks and symbols that count as letters. -/
def isAlphabetic (c : Char) : Bool :=
  ["Lu", "Ll", "Lt", "Lm", "Lo", "Nl"].contains (generalCategory c)
    || inRanges otherAlphabetic c.toNat

/-- Upper-case letters and the symbols that count as such. -/
def isUppercase (c : Char) : Bool :=
  generalCategory c == "Lu" || inRanges otherUppercase c.toNat

/-- Lower-case letters and the symbols that count as such. -/
def isLowercase (c : Char) : Bool :=
  generalCategory c == "Ll" || inRanges otherLowercase c.toNat

/-- Characters that have a case. -/
def isCased (c : Char) : Bool :=
  isUppercase c || isLowercase c || generalCategory c == "Lt"

/-- Characters that casing rules look through. -/
def isCaseIgnorable (c : Char) : Bool :=
  ["Mn", "Me", "Cf", "Lm", "Sk"].contains (generalCategory c) || inRanges wordPunctuation c.toNat

/-- Word characters: alphabetic ones, marks, decimal digits, connectors and the two joiners. -/
def isWord (c : Char) : Bool :=
  if c.toNat < 0x80 then c.isAlphanum || c == '_'
  else isAlphabetic c || ["Mn", "Mc", "Me", "Nd", "Pc"].contains (generalCategory c)
    || c.toNat == 0x200C || c.toNat == 0x200D

/-- Decimal digits of any script. -/
def isDecimalDigit (c : Char) : Bool :=
  if c.toNat < 0x80 then c.isDigit else generalCategory c == "Nd"

end SiteFolders.Text
