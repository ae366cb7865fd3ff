import SiteFolders.Proofs.Reference.LeadingSegments
import SiteFolders.Proofs.Reference.Words

/-!
# Mentions of words

A name that holds no delimiters, and in which neither the sign of an attribute nor the end of a
stylesheet import can be read, is read as a whole or not at all (`IsWord`). Where a mention of it is
found, its name and leading segments are a word of the text (`IsMention.wordAt`).
-/

namespace SiteFolders.Reference

open SiteFolders.Text Regex

/-! ## Names that are words -/

/-- A text that is read as a whole or not at all. -/
structure IsWord (t : List Char) : Prop where
  plain : PlainValue t
  ne_nil : t ≠ []
  /-- It is not what stands between an attribute and the quote of its value. -/
  not_sign : t ≠ ['=']
  /-- A quote after it does not open a value. -/
  not_attribute : ¬ EndsAttribute t
  /-- It does not end a stylesheet import that stands before it. -/
  head : t.head? ≠ some ';'

theorem eq_of_sameFold_delimits {c m : Char} (hc : Delimits c) (h : sameFold c m = true) :
    m = c := by
  have hcases : c.toNat < 0x41 ∨ isBlank c = true := by
    rcases hc with (hquote | rfl | hblank) | hcloses
    · exact Or.inl hquote.isMark
    · exact Or.inl (by decide)
    · exact Or.inr hblank
    · simp only [closesLoose, Bool.or_eq_true, beq_iff_eq] at hcloses
      rcases hcloses with ((rfl | rfl) | rfl) | hblank
      · exact Or.inl (by decide)
      · exact Or.inl (by decide)
      · exact Or.inl (by decide)
      · exact Or.inr hblank
  rcases hcases with hmark | hblank
  · exact eq_of_sameFold (Or.inl hmark) h
  · exact eq_of_sameFold_blank hblank h

theorem PlainValue.of_spelled {a b : List Char} (h : PlainValue a) (hs : Spelled a b) :
    PlainValue b := by
  rw [plainValue_iff] at h ⊢
  intro c hc hdelimits
  obtain ⟨k, hk, hsame⟩ := hs.exists_of_mem hc
  rw [sameFold_comm] at hsame
  obtain rfl := eq_of_sameFold_delimits hdelimits hsame
  exact h k hk hdelimits

theorem IsWord.not_ends {t : List Char} (h : IsWord t) : ∃ c rest, t = c :: rest ∧ ¬ Ends c := by
  obtain ⟨c, rest, rfl⟩ := List.exists_cons_of_ne_nil h.ne_nil
  refine ⟨c, rest, rfl, ?_⟩
  rintro (hcloses | rfl)
  · exact h.plain.not_delimits List.mem_cons_self (Or.inr hcloses)
  · exact h.head rfl

theorem IsWord.of_spelled {a b : List Char} (h : IsWord a) (hs : Spelled a b) : IsWord b where
  plain := h.plain.of_spelled hs
  ne_nil := by
    rintro rfl
    exact h.ne_nil (List.forall₂_nil_right_iff.1 hs)
  not_sign := by
    rintro rfl
    exact h.not_sign (eq_sign_of_spelled hs)
  not_attribute := fun hend => h.not_attribute (hend.of_spelled hs)
  head := fun hhead => h.head ((hs.head?_eq_iff (Or.inl (by decide))).1 hhead)

/-- What is put in front of a word leaves it one, if its last character is not part of a keyword. -/
theorem IsWord.append {u v : List Char} (hu : PlainValue u) (hhead : u.head? ≠ some ';')
    (hend : ∀ c, u.getLast? = some c → ¬ IsKeyChar c ∧ c ≠ '=') (hv : IsWord v) :
    IsWord (u ++ v) where
  plain := hu.append hv.plain
  ne_nil := by simp [hv.ne_nil]
  not_sign := by
    intro hsign
    rcases List.append_eq_singleton_iff.1 hsign with ⟨-, h⟩ | ⟨-, h⟩
    · exact hv.not_sign h
    · exact hv.ne_nil h
  not_attribute := fun h => hv.not_attribute (h.of_append hend)
  head := by
    cases u with
    | nil => exact hv.head
    | cons c u => exact hhead

/-- Leading segments in front of a word leave it a word. -/
theorem IsWord.lead_append {ld m : List Char} (hld : Matches lead ld) (h : IsWord m) :
    IsWord (ld ++ m) := by
  have hmem := mem_of_matches_lead hld
  refine IsWord.append (plainValue_lead hld) ?_ ?_ h
  · intro hhead
    rcases hmem ';' (List.mem_of_head? hhead) with h | h <;> simp at h
  · intro c hc
    have hin := List.mem_of_getLast? hc
    refine ⟨not_isKeyChar_of_lead hld hin, ?_⟩
    rintro rfl
    rcases hmem '=' hin with h | h <;> simp at h

/-! ## Mentions -/

/-- The parts of a mention that is found where they stand. -/
structure IsMention (pass : Pass) (name : List Char) (p : Parts) : Prop
    extends Reads pass name p where
  ahead : ∀ test, pass.ahead = some test → p.rest.head?.any test = true

namespace Parts

/-- What stands before the leading segments. -/
def front (p : Parts) : List Char := p.opening ++ p.bridge

/-- The name with its leading segments. -/
def word (p : Parts) : List Char := p.lead ++ p.name

/-- What comes after the name. -/
def follow (p : Parts) : List Char := p.closing ++ p.rest

theorem text_eq (p : Parts) : p.text = p.front ++ (p.word ++ p.follow) := by
  simp [text, front, word, follow]

theorem text_eq_mentionText (p : Parts) : p.text = p.mentionText ++ p.rest := by
  simp [text, mentionText]

end Parts

section

variable {pass : Pass} (hpass : pass ∈ Pass.all) {name : List Char} {p : Parts}
include hpass

omit hpass in
theorem Reads.isWord_word (h : Reads pass name p) (hname : IsWord name) : IsWord p.word :=
  (hname.of_spelled h.spelled).lead_append h.lead

theorem IsMention.front_last (h : IsMention pass name p) : ∃ u d, p.front = u ++ [d] ∧ Opens d := by
  obtain ⟨u, d, hfront, hd, -⟩ := Reference.front_last hpass h.opening h.bridge
  exact ⟨u, d, hfront, hd⟩

/-- No word stands within what stands before a mention. -/
theorem IsMention.front_ne (h : IsMention pass name p) {t u v : List Char} {d k : Char}
    (ht : IsWord t) (hd : Opens d) (hk : closesLoose k = true) :
    p.front ≠ u ++ d :: (t ++ k :: v) := by
  intro heq
  exact ht.not_sign (word_of_front hpass h.opening h.bridge heq hd hk ht.plain ht.ne_nil)

theorem IsMention.follow_head (h : IsMention pass name p) :
    ∃ k v, p.follow = k :: v ∧ closesLoose k = true :=
  (next_cases hpass h.toReads h.ahead).1

/-- What comes after the name starts before a character that ends no mention. -/
theorem IsMention.follow_before (h : IsMention pass name p) {w z : List Char} {c : Char}
    (hc : ¬ Ends c) (hfollow : p.follow = w ++ c :: z) :
    ∃ k w', w = k :: w' ∧ closesLoose k = true := by
  obtain ⟨k, v, hk, hcloses⟩ := h.follow_head hpass
  rw [hk] at hfollow
  cases w with
  | nil =>
    obtain ⟨rfl, -⟩ := List.cons.inj hfollow
    exact absurd (Or.inl hcloses) hc
  | cons k' w' =>
    obtain ⟨rfl, -⟩ := List.cons.inj hfollow
    exact ⟨k, w', rfl, hcloses⟩

theorem IsMention.closing_ends (h : IsMention pass name p) : ∀ c ∈ p.closing, Ends c :=
  (next_cases hpass h.toReads h.ahead).2

/-- A name without delimiters stands between two of them, together with its leading segments. -/
theorem IsMention.wordAt_of_plain (h : IsMention pass name p) (hplain : PlainValue name)
    (hne : name ≠ []) (before : List Char) : WordAt (before ++ p.front) p.word p.follow := by
  refine ⟨(plainValue_lead h.lead).append (hplain.of_spelled h.spelled), ?_, ?_, ?_⟩
  · intro hnil
    have hname := h.spelled
    rw [(List.append_eq_nil_iff.1 hnil).2] at hname
    exact hne (List.forall₂_nil_right_iff.1 hname)
  · obtain ⟨u, d, hfront, hd⟩ := h.front_last hpass
    exact ⟨before ++ u, d, by rw [hfront, List.append_assoc], Or.inl hd⟩
  · obtain ⟨k, v, hfollow, hk⟩ := h.follow_head hpass
    exact ⟨k, v, hfollow, Or.inr hk⟩

theorem IsMention.wordAt (h : IsMention pass name p) (hname : IsWord name) (before : List Char) :
    WordAt (before ++ p.front) p.word p.follow :=
  h.wordAt_of_plain hpass hname.plain hname.ne_nil before

end

/-! ## What mentions end with -/

/-- Only loose mentions ask for what comes after them. -/
theorem eq_loose_of_ahead {pass : Pass} (hpass : pass ∈ Pass.all) {test : Char → Bool}
    (h : pass.ahead = some test) : pass = .loose ∧ test = closesLoose := by
  simp only [Pass.all, List.mem_cons, List.not_mem_nil, or_false] at hpass
  rcases hpass with rfl | rfl | rfl | rfl | rfl | rfl | rfl | rfl | rfl
  case inr.inr.inr.inr.inr.inr.inr.inr => exact ⟨rfl, (Option.some.inj h).symm⟩
  all_goals simp [Pass.href, Pass.src, Pass.cssUrl, Pass.importFrom, Pass.importBare,
    Pass.cssImport, Pass.keeping, Pass.phpIncludeCall, Pass.phpIncludeStatement] at h

end SiteFolders.Reference
