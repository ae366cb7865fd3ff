import Mathlib.Data.List.Chain
import SiteFolders.Regex.CharSet

/-!
# Strings in double quotes

How PHP reads a string in double quotes: it ends at the first quote that is not escaped, a backslash
starts an escape, and a dollar sign before a name or a brace, as well as a brace before a dollar sign,
puts in the value of an expression. Such a string has no value of its own (`readString`). A text
without backslashes that stands between the quotes as it is has itself for its value exactly if it has
none of these (`readString_iff`). With a backslash before each character that means something, any
text has itself for its value (`readString_withEscapes`).
-/

namespace SiteFolders.Text

/-! ## Reading -/

/-- True of characters that the name of a variable can start with; beyond ASCII, all can. -/
def startsVariable (c : Char) : Bool := c.isAlpha || c == '_' || 0x80 ≤ c.toNat

/-- True of a character and the next one if they put in the value of an expression. -/
def interpolates (c next : Char) : Bool :=
  c == '$' && (startsVariable next || next == '\x7b') || c == '\x7b' && next == '$'

/-- The bytes of a code point in UTF-8, also of a surrogate. -/
def utf8Bytes (n : Nat) : List UInt8 :=
  let tail (m : Nat) : UInt8 := (0x80 + m % 0x40).toUInt8
  if n < 0x80 then [n.toUInt8]
  else if n < 0x800 then [(0xC0 + n / 0x40).toUInt8, tail n]
  else if n < 0x10000 then [(0xE0 + n / 0x1000).toUInt8, tail (n / 0x40), tail n]
  else [(0xF0 + n / 0x40000).toUInt8, tail (n / 0x1000), tail (n / 0x40), tail n]

/-- The value of an octal numeral. -/
def ofOctal (digits : List Char) : Nat := digits.foldl (fun n d => 8 * n + (d.toNat - '0'.toNat)) 0

/-- What the characters after a backslash stand for together with it, and how many they are. A
backslash that starts no escape stands for itself. -/
def readEscape? (rest : List Char) : Option (List UInt8 × Nat) :=
  match rest with
  | [] => none
  | 'n' :: _ => some ([0x0A], 1)
  | 't' :: _ => some ([0x09], 1)
  | 'r' :: _ => some ([0x0D], 1)
  | 'v' :: _ => some ([0x0B], 1)
  | 'e' :: _ => some ([0x1B], 1)
  | 'f' :: _ => some ([0x0C], 1)
  | '\\' :: _ => some ([0x5C], 1)
  | '$' :: _ => some ([0x24], 1)
  | '"' :: _ => some ([0x22], 1)
  | 'u' :: '\x7b' :: more =>
    let digits := more.takeWhile Regex.isHexDigit
    if digits = [] ∨ more[digits.length]? ≠ some '\x7d' ∨ 0x10FFFF < ofHex digits then none
    else some (utf8Bytes (ofHex digits), digits.length + 3)
  | c :: more =>
    let hex := (more.takeWhile Regex.isHexDigit).take 2
    let octal := (rest.takeWhile fun d => '0' ≤ d && d ≤ '7').take 3
    if c = 'x' ∧ hex ≠ [] then some ([(ofHex hex).toUInt8], hex.length + 1)
    else if octal ≠ [] then some ([(ofOctal octal).toUInt8], octal.length)
    else some (0x5C :: String.utf8EncodeChar c, 1)

/-- Reads a string after its opening quote: the bytes that it stands for, and what comes after its
closing quote. There is no value if the string does not end, if an escape is malformed, or if the
value of an expression is put in. -/
def readString : List Char → Option (List UInt8 × List Char)
  | [] => none
  | '"' :: rest => some ([], rest)
  | '\\' :: rest =>
    match readEscape? rest with
    | none => none
    | some (bytes, taken) =>
      (readString (rest.drop taken)).map fun (value, after) => (bytes ++ value, after)
  | c :: rest =>
    if rest.head?.any (interpolates c) then none
    else (readString rest).map fun (value, after) => (String.utf8EncodeChar c ++ value, after)
termination_by text => text.length
decreasing_by
  · simp only [List.length_drop, List.length_cons]
    omega
  · simp

/-- The bytes of a text. -/
def bytesOf (text : List Char) : List UInt8 := text.flatMap String.utf8EncodeChar

/-! ## Texts that stand for themselves -/

/-- A text that neither ends a string nor puts an expression into it. -/
structure IsVerbatim (text : List Char) : Prop where
  no_quote : '"' ∉ text
  chain : text.IsChain fun c next => interpolates c next = false

instance (text : List Char) : Decidable (IsVerbatim text) :=
  decidable_of_iff ('"' ∉ text ∧ text.IsChain fun c next => interpolates c next = false)
    ⟨fun ⟨h, h'⟩ => ⟨h, h'⟩, fun ⟨h, h'⟩ => ⟨h, h'⟩⟩

theorem isVerbatim_nil : IsVerbatim [] := ⟨by simp, .nil⟩

theorem interpolates_quote (c : Char) : interpolates c '"' = false := by
  simp [interpolates, startsVariable]

theorem isVerbatim_cons {c : Char} {text : List Char} : IsVerbatim (c :: text) ↔
    c ≠ '"' ∧ text.head?.any (interpolates c) = false ∧ IsVerbatim text := by
  constructor
  · rintro ⟨hquote, hchain⟩
    rw [List.mem_cons, not_or] at hquote
    refine ⟨Ne.symm hquote.1, ?_, hquote.2, hchain.tail⟩
    cases text with
    | nil => rfl
    | cons d text => simpa using (List.isChain_cons_cons.1 hchain).1
  · rintro ⟨hc, hhead, hquote, hchain⟩
    refine ⟨by simp [hquote, Ne.symm hc], ?_⟩
    cases text with
    | nil => exact .singleton c
    | cons d text => exact List.isChain_cons_cons.2 ⟨by simpa using hhead, hchain⟩

theorem readString_cons {c : Char} (hquote : c ≠ '"') (hbackslash : c ≠ '\\') (rest : List Char) :
    readString (c :: rest) = if rest.head?.any (interpolates c) then none
      else (readString rest).map fun (value, after) => (String.utf8EncodeChar c ++ value, after) := by
  rw [readString]
  · exact fun h => hquote h
  · exact fun h => hbackslash h

/-- What the first character sees after it is the same with the closing quote. -/
theorem any_interpolates_append (c : Char) (text after : List Char) :
    (text ++ '"' :: after).head?.any (interpolates c) = text.head?.any (interpolates c) := by
  cases text with
  | nil => simpa using interpolates_quote c
  | cons d text => rfl

/-- Between quotes, a text without backslashes stands for itself and ends with the second quote exactly
if it neither ends the string before nor puts an expression into it. -/
theorem readString_iff {text : List Char} (h : '\\' ∉ text) (after : List Char) :
    readString (text ++ '"' :: after) = some (bytesOf text, after) ↔ IsVerbatim text := by
  induction text with
  | nil => simp [readString, bytesOf, isVerbatim_nil]
  | cons c text ih =>
    obtain ⟨hbackslash, htext⟩ : c ≠ '\\' ∧ '\\' ∉ text := by
      rw [List.mem_cons, not_or] at h
      exact ⟨Ne.symm h.1, h.2⟩
    rw [isVerbatim_cons, ← ih htext, List.cons_append]
    by_cases hquote : c = '"'
    · -- the string ends before the text has begun
      subst hquote
      have hne : bytesOf ('"' :: text) ≠ [] := by simp [bytesOf, String.utf8EncodeChar_ne_nil]
      simp [readString, Ne.symm hne]
    · rw [readString_cons hquote hbackslash, any_interpolates_append]
      cases hhead : text.head?.any (interpolates c) with
      | true => simp
      | false =>
        have hbytes : bytesOf (c :: text) = String.utf8EncodeChar c ++ bytesOf text := rfl
        rw [hbytes]
        simp [hquote, Prod.ext_iff]

/-! ## Escaped texts -/

/-- True of characters that mean something in a string, alone or with the one before. -/
def IsSpecial (c : Char) : Prop := c = '"' ∨ c = '$' ∨ c = '\\'

instance (c : Char) : Decidable (IsSpecial c) := inferInstanceAs (Decidable (_ ∨ _ ∨ _))

/-- A text with a backslash before each of these characters. -/
def withEscapes (text : List Char) : List Char :=
  text.flatMap fun c => if IsSpecial c then ['\\', c] else [c]

/-- No expression is put in where an escaped text starts. -/
theorem head?_withEscapes_ne (text after : List Char) :
    (withEscapes text ++ '"' :: after).head? ≠ some '$' := by
  cases text with
  | nil => simp [withEscapes]
  | cons c text =>
    by_cases hc : IsSpecial c
    · simp [withEscapes, hc]
    · have hdollar : c ≠ '$' := fun h => hc (Or.inr (Or.inl h))
      simp [withEscapes, hc, hdollar]

/-- Between quotes, an escaped text stands for the text and ends with the second quote. -/
theorem readString_withEscapes (text after : List Char) :
    readString (withEscapes text ++ '"' :: after) = some (bytesOf text, after) := by
  induction text with
  | nil => simp [withEscapes, readString, bytesOf]
  | cons c text ih =>
    have hbytes : bytesOf (c :: text) = String.utf8EncodeChar c ++ bytesOf text := rfl
    by_cases hc : IsSpecial c
    · have hescaped : withEscapes (c :: text) = '\\' :: c :: withEscapes text := by
        simp [withEscapes, hc]
      have hread : readEscape? (c :: (withEscapes text ++ '"' :: after)) =
          some (String.utf8EncodeChar c, 1) := by
        rcases hc with rfl | rfl | rfl <;> rfl
      rw [hescaped, List.cons_append, List.cons_append, readString, hread]
      simp [ih, hbytes]
    · have hescaped : withEscapes (c :: text) = c :: withEscapes text := by simp [withEscapes, hc]
      simp only [IsSpecial, not_or] at hc
      -- a brace would need a dollar sign after it
      have hhead : (withEscapes text ++ '"' :: after).head?.any (interpolates c) = false := by
        have hne := head?_withEscapes_ne text after
        cases hnext : (withEscapes text ++ '"' :: after).head? with
        | none => rfl
        | some next =>
          rw [hnext, ne_eq, Option.some.injEq] at hne
          simp [interpolates, hc.2.1, hne]
      rw [hescaped, List.cons_append, readString_cons hc.1 hc.2.2, hhead, ih, hbytes]
      rfl

end SiteFolders.Text
