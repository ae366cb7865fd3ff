import SiteFolders.Text.CaseTable
import SiteFolders.Text.Property

/-!
# Lower case

Full lower-casing of text. Every character is mapped on its own but for the capital sigma, whose
form depends on whether a word ends there. ASCII text never meets that rule (`lowerOne_ascii`).
-/

namespace SiteFolders.Text

/-- The lower-case form of one character, out of context. -/
def lowerOne (c : Char) : List Char :=
  if c.toNat < 0x80 then [c.toLower]
  else if c.toNat = 0x130 then ['i', '\u0307']
  else match lowerRuns.findSome? (·.image? c.toNat) with
    | some n => [Char.ofNat n]
    | none => [c]

/-- An ASCII character has one lower-case form, which is ASCII's. -/
theorem lowerOne_ascii {c : Char} (h : c.toNat < 0x80) : lowerOne c = [c.toLower] := by
  simp [lowerOne, h]

/-- True if the first character that casing rules do not look through has a case. -/
def startsCased (cs : List Char) : Bool :=
  ((cs.dropWhile isCaseIgnorable).head?.map isCased).getD false

/-- A word ends between the two texts, the earlier one read backwards. -/
def endsWord (before after : List Char) : Bool :=
  startsCased before && !startsCased after

/-- Lower-cases a text that follows `before`, which is read backwards. -/
def lowerAfter (before : List Char) : List Char → List Char
  | [] => []
  | c :: rest =>
    (if c = 'Σ' then [if endsWord before rest then 'ς' else 'σ'] else lowerOne c)
      ++ lowerAfter (c :: before) rest

/-- The lower-case form of a text. -/
def lowercase (s : String) : String := String.ofList (lowerAfter [] s.toList)

end SiteFolders.Text
