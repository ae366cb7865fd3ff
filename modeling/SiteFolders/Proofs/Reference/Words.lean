import SiteFolders.Proofs.Reference.Values

/-!
# Words and keywords

Delimiters cut a text into words, and a name that is read in it is one of them: two words of a text
are the same one, or one comes before the other (`WordAt.cases`). What stands before a mention that
is not loose is a keyword and what comes after it, without further words, except that the equals
sign of an attribute may be one. So a word that what stands before a mention starts with is a
keyword (`key_of_front`), and no name is read within it but that sign (`word_of_front`).
-/

namespace SiteFolders.Reference

open SiteFolders.Text Regex

/-! ## Words -/

/-- True of what opens or closes a mention. -/
def Delimits (c : Char) : Prop := Opens c ∨ closesLoose c = true

theorem PlainValue.not_delimits {t : List Char} (h : PlainValue t) {c : Char} (hc : c ∈ t) :
    ¬ Delimits c := by
  rintro (hopens | hcloses)
  · exact (h c hc).1 hopens
  · simp [(h c hc).2] at hcloses

theorem plainValue_iff {t : List Char} : PlainValue t ↔ ∀ c ∈ t, ¬ Delimits c := by
  constructor
  · intro h c hc
    exact h.not_delimits hc
  · intro h c hc
    have hnot := h c hc
    exact ⟨fun hopens => hnot (Or.inl hopens), by simpa using fun hcloses => hnot (Or.inr hcloses)⟩

/-- A word between delimiters, with what stands before and after it. -/
structure WordAt (x t y : List Char) : Prop where
  plain : PlainValue t
  ne_nil : t ≠ []
  before : ∃ u d, x = u ++ [d] ∧ Delimits d
  after : ∃ k v, y = k :: v ∧ Delimits k

section

variable {x t y x' t' y' : List Char}

theorem eq_nil_of_plain_append {r a z : List Char} (hplain : PlainValue (r ++ a))
    (hy : ∃ k v, y = k :: v ∧ Delimits k) (h : y = a ++ z) : a = [] := by
  obtain ⟨k, v, rfl, hk⟩ := hy
  cases a with
  | nil => rfl
  | cons c a =>
    obtain ⟨rfl, -⟩ := List.cons.inj h
    exact absurd hk (hplain.not_delimits (by simp))

/-- Where two words start at one place, they are the same. -/
theorem WordAt.eq_of_append_eq (h : WordAt x t y) (h' : WordAt x' t' y') (heq : t ++ y = t' ++ y') :
    t = t' ∧ y = y' := by
  rcases List.append_eq_append_iff.1 heq with ⟨a, rfl, hy⟩ | ⟨a, rfl, hy⟩
  · obtain rfl := eq_nil_of_plain_append h'.plain h.after hy
    exact ⟨by simp, by simpa using hy⟩
  · obtain rfl := eq_nil_of_plain_append h.plain h'.after hy
    exact ⟨by simp, by simpa using hy.symm⟩

/-- A word that starts later than another one comes after it. -/
theorem WordAt.later {a : List Char} (h : WordAt (x' ++ a) t y) (h' : WordAt x' t' y')
    (heq : t' ++ y' = a ++ (t ++ y)) :
    (a = [] ∧ t = t' ∧ y = y') ∨ ∃ w, a = t' ++ w ∧ y' = w ++ (t ++ y) := by
  rcases List.append_eq_append_iff.1 heq with ⟨w, ha, hy⟩ | ⟨b, ht, hrest⟩
  · exact Or.inr ⟨w, ha, hy⟩
  · left
    -- the other word runs over the delimiter in front of this one, if there is anything between
    rcases List.eq_nil_or_concat a with rfl | ⟨a', d', rfl⟩
    · obtain ⟨ht', hy'⟩ := h.eq_of_append_eq h' heq.symm
      exact ⟨rfl, ht', hy'⟩
    · obtain ⟨u, d, hx, hd⟩ := h.before
      rw [List.concat_eq_append, ← List.append_assoc] at hx
      obtain rfl : d' = d := by simpa using List.append_inj_right' hx rfl
      exact absurd hd (h'.plain.not_delimits (by simp [ht]))

/-- Two words of a text are the same, or one comes before the other. -/
theorem WordAt.cases (h : WordAt x t y) (h' : WordAt x' t' y')
    (heq : x ++ (t ++ y) = x' ++ (t' ++ y')) :
    (x = x' ∧ t = t' ∧ y = y') ∨ (∃ w, x' = x ++ (t ++ w) ∧ y = w ++ (t' ++ y')) ∨
      ∃ w, x = x' ++ (t' ++ w) ∧ y' = w ++ (t ++ y) := by
  rcases List.append_eq_append_iff.1 heq with ⟨a, rfl, hrest⟩ | ⟨a, rfl, hrest⟩
  · rcases h'.later h hrest with ⟨rfl, rfl, rfl⟩ | ⟨w, rfl, hy⟩
    · exact Or.inl ⟨by simp, rfl, rfl⟩
    · exact Or.inr (Or.inl ⟨w, rfl, hy⟩)
  · rcases h.later h' hrest with ⟨rfl, rfl, rfl⟩ | ⟨w, rfl, hy⟩
    · exact Or.inl ⟨by simp, rfl, rfl⟩
    · exact Or.inr (Or.inr ⟨w, rfl, hy⟩)

end

/-- What a text ends in does not reach over a character that it does not hold. -/
theorem suffix_of_append {s u v : List Char} (h : s <:+ u ++ v)
    (hu : ∀ c, u.getLast? = some c → c ∉ s) : s <:+ v := by
  obtain ⟨a, ha⟩ := h
  rcases List.append_eq_append_iff.1 ha with ⟨b, rfl, rfl⟩ | ⟨b, -, hb⟩
  · rcases List.eq_nil_or_concat b with rfl | ⟨b, c, rfl⟩
    · exact List.suffix_rfl
    · exact absurd (by simp) (hu c (by simp))
  · exact ⟨b, hb.symm⟩

/-! ## Keywords -/

/-- What keywords are made of in any letter case. -/
def IsKeyChar (c : Char) : Prop := IsLetter c ∨ c = '@' ∨ c = '_'

namespace IsKeyChar

variable {c : Char} (h : IsKeyChar c)
include h

theorem not_delimits : ¬ Delimits c := by
  rcases h with h | rfl | rfl
  · rintro (hopens | hcloses)
    · exact h.not_opens hopens
    · simp [h.not_closes] at hcloses
  all_goals simp [Delimits, Opens, IsQuote, closesLoose, isBlank]

theorem ne_of_isMark {k : Char} (hk : k.toNat < 0x40) : c ≠ k := by
  rcases h with h | rfl | rfl
  · exact h.ne_of_isMark (by omega)
  all_goals
    rintro rfl
    revert hk
    decide

theorem not_ends : ¬ Ends c := by
  rintro (hcloses | rfl)
  · exact h.not_delimits (Or.inr hcloses)
  · exact h.ne_of_isMark (by decide) rfl

end IsKeyChar

theorem isKeyChar_of_sameFold {a b : Char}
    (ha : 0x61 ≤ a.toNat ∧ a.toNat ≤ 0x7A ∨ a = '@' ∨ a = '_') (h : sameFold a b = true) :
    IsKeyChar b := by
  rcases ha with ha | rfl | rfl
  · exact Or.inl (of_sameFold_letter ha h)
  · exact Or.inr (Or.inl (eq_of_sameFold (by decide) h))
  · exact Or.inr (Or.inr (eq_of_sameFold (by decide) h))

theorem isKeyChar_of_keyword {w : String} (hw : w ∈ keywords) {key : List Char}
    (h : Spelled w.toList key) : ∀ c ∈ key, IsKeyChar c := by
  have hall : (keywords.all fun w => w.toList.all fun c =>
      decide (0x61 ≤ c.toNat ∧ c.toNat ≤ 0x7A ∨ c = '@' ∨ c = '_')) = true := by decide +kernel
  intro c hc
  obtain ⟨a, ha, hsame⟩ := h.exists_of_mem hc
  have hletters := List.all_eq_true.1 (List.all_eq_true.1 hall w hw) a ha
  exact isKeyChar_of_sameFold (of_decide_eq_true hletters) hsame

theorem not_isKeyChar_of_lead {ld : List Char} (hld : Matches lead ld) {c : Char} (hc : c ∈ ld) :
    ¬ IsKeyChar c := by
  intro h
  rcases mem_of_matches_lead hld c hc with rfl | rfl
  · exact h.ne_of_isMark (by decide) rfl
  · exact h.ne_of_isMark (by decide) rfl

/-! ## Texts that end in an attribute -/

/-- True of a text that ends in the name of an attribute and its equals sign. -/
def EndsAttribute (t : List Char) : Prop := ∃ key, Key key ∧ key ++ ['='] <:+ t

theorem Key.of_spelled {u v : List Char} (hs : Spelled u v) (h : Key v) : Key u := by
  rcases h with h | h
  · exact Or.inl (h.trans hs.symm)
  · exact Or.inr (h.trans hs.symm)

theorem eq_sign_of_spelled {t : List Char} (h : Spelled t ['=']) : t = ['='] := by
  obtain ⟨c, u, hc, hu, rfl⟩ := List.forall₂_cons_right_iff.1 h
  rw [sameFold_comm] at hc
  rw [eq_of_sameFold (Or.inl (by decide)) hc, List.forall₂_nil_right_iff.1 hu]

namespace EndsAttribute

variable {u v : List Char}

theorem of_suffix (h : EndsAttribute v) (hsuffix : v <:+ u) : EndsAttribute u := by
  obtain ⟨key, hkey, hend⟩ := h
  exact ⟨key, hkey, hend.trans hsuffix⟩

theorem of_spelled (hs : Spelled u v) (h : EndsAttribute v) : EndsAttribute u := by
  obtain ⟨key, hkey, a, rfl⟩ := h
  have hend : Spelled (u.drop a.length) (key ++ ['=']) := List.forall₂_drop_append u a _ hs
  refine of_suffix ⟨(u.drop a.length).take key.length, ?_, ?_⟩ (List.drop_suffix a.length u)
  · exact hkey.of_spelled (List.forall₂_take_append _ _ _ hend)
  · have hsign := eq_sign_of_spelled (List.forall₂_drop_append _ _ _ hend)
    have hsplit := List.take_append_drop key.length (u.drop a.length)
    rw [hsign] at hsplit
    exact ⟨[], hsplit⟩

/-- What stands before it does not matter if its last character cannot be part of the end. -/
theorem of_append (hu : ∀ c, u.getLast? = some c → ¬ IsKeyChar c ∧ c ≠ '=')
    (h : EndsAttribute (u ++ v)) : EndsAttribute v := by
  obtain ⟨key, hkey, hend⟩ := h
  refine ⟨key, hkey, suffix_of_append hend fun c hc hmem => ?_⟩
  obtain ⟨hnot, hsign⟩ := hu c hc
  rcases List.mem_append.1 hmem with hmem | hmem
  · exact hnot (Or.inl (hkey.isLetter c hmem))
  · exact hsign (List.mem_singleton.1 hmem)

end EndsAttribute

theorem not_endsAttribute_of_getLast? {t : List Char} (h : t.getLast? ≠ some '=') :
    ¬ EndsAttribute t := by
  rintro ⟨key, -, u, rfl⟩
  rw [← List.append_assoc, List.getLast?_concat] at h
  exact h rfl

/-! ## Words after a keyword -/

theorem AllBlank.opens {b : List Char} (h : AllBlank b) : ∀ c ∈ b, Opens c :=
  fun c hc => Or.inr (Or.inr (h c hc))

theorem opens_quote {q : Char} (hq : IsQuote q) : ∀ k ∈ [q], Opens k := by
  intro k hk
  rw [List.mem_singleton.1 hk]
  exact Or.inl hq

theorem opens_append {a b : List Char} (ha : ∀ k ∈ a, Opens k) (hb : ∀ k ∈ b, Opens k) :
    ∀ k ∈ a ++ b, Opens k := by
  intro k hk
  rcases List.mem_append.1 hk with hk | hk
  · exact ha k hk
  · exact hb k hk

theorem opens_paren {s : List Char} (hs : ∀ k ∈ s, Opens k) : ∀ k ∈ '(' :: s, Opens k := by
  intro k hk
  rcases List.mem_cons.1 hk with rfl | hk
  · exact Or.inr (Or.inl rfl)
  · exact hs k hk

theorem opens_of_quote? {s : List Char} (hs : s = [] ∨ ∃ q, s = [q] ∧ IsQuote q) :
    ∀ k ∈ s, Opens k := by
  rcases hs with rfl | ⟨q, rfl, hq⟩
  · simp
  · exact opens_quote hq

section

variable {u t v : List Char} {d k : Char} (ht : PlainValue t) (hne : t ≠ [])
include ht hne

/-- No word stands within what opens mentions. -/
theorem ne_of_opens {s : List Char} (hs : ∀ c ∈ s, Opens c) : s ≠ u ++ d :: (t ++ k :: v) := by
  rintro rfl
  obtain ⟨c, hc⟩ := List.exists_mem_of_ne_nil t hne
  exact (ht c hc).1 (hs c (by simp [hc]))

/-- An equals sign between delimiters is the only word there. -/
theorem eq_sign_of_word {b s : List Char} (hb : ∀ c ∈ b, Opens c) (hs : ∀ c ∈ s, Opens c)
    (heq : b ++ '=' :: s = u ++ d :: (t ++ k :: v)) : t = ['='] := by
  have hall : ∀ c ∈ t, c = '=' := by
    intro c hc
    have hmem : c ∈ b ++ '=' :: s := by
      rw [heq]
      simp [hc]
    rcases List.mem_append.1 hmem with hin | hin
    · exact absurd (hb c hin) (ht c hc).1
    · rcases List.mem_cons.1 hin with rfl | hin
      · rfl
      · exact absurd (hs c hin) (ht c hc).1
  -- there is one sign only, and so the word is no longer
  have hcount := congrArg (List.count '=') heq
  have hnone : ∀ {s : List Char}, (∀ c ∈ s, Opens c) → s.count '=' = 0 := fun hs =>
    List.count_eq_zero.2 fun hin => absurd (hs '=' hin) (by decide)
  have hlength : t.count '=' = t.length := List.count_eq_length.2 fun c hc => (hall c hc).symm
  simp only [List.count_append, List.count_cons, hnone hb, hnone hs, hlength, beq_self_eq_true,
    if_true] at hcount
  obtain ⟨c, rfl⟩ : ∃ c, t = [c] := by
    refine List.length_eq_one_iff.1 ?_
    have hpos := List.length_pos_iff.2 hne
    omega
  rw [hall c List.mem_cons_self]

/-- A second keyword is followed by a parenthesis, which does not close a mention. -/
theorem ne_of_nested {b url s : List Char} (hnil : b ≠ []) (hb : ∀ c ∈ b, Opens c)
    (hurl : Spelled "url".toList url) (hs : ∀ c ∈ s, Opens c) (hd : Opens d)
    (hk : closesLoose k = true) : b ++ (url ++ '(' :: s) ≠ u ++ d :: (t ++ k :: v) := by
  intro heq
  obtain ⟨c, hc⟩ := List.exists_mem_of_ne_nil t hne
  have hmem : "url" ∈ keywords := by decide
  have hplain : PlainValue url := plainValue_iff.2 fun c hc =>
    (isKeyChar_of_keyword hmem hurl c hc).not_delimits
  have hword : WordAt (u ++ [d]) t (k :: v) :=
    ⟨ht, hne, ⟨u, d, rfl, Or.inl hd⟩, ⟨k, v, rfl, Or.inr hk⟩⟩
  have hword' : WordAt b url ('(' :: s) := by
    refine ⟨hplain, key_ne_nil hmem hurl, ?_, '(', s, rfl, Or.inl (Or.inr (Or.inl rfl))⟩
    rcases List.eq_nil_or_concat b with h | ⟨b', e, rfl⟩
    · exact absurd h hnil
    · rw [List.concat_eq_append] at hb ⊢
      exact ⟨b', e, rfl, Or.inl (hb e (by simp))⟩
  have hsplit : (u ++ [d]) ++ (t ++ k :: v) = b ++ (url ++ '(' :: s) := by
    rw [heq]
    simp
  -- two words of one text are the same, or one of them comes before the other
  rcases hword.cases hword' hsplit with ⟨-, -, hafter⟩ | ⟨w, hbefore, -⟩ | ⟨w, -, hafter⟩
  · obtain ⟨rfl, -⟩ := List.cons.inj hafter
    simp [closesLoose, isBlank] at hk
  · exact (ht c hc).1 (hb c (by simp [hbefore, hc]))
  · exact (ht c hc).1 (opens_paren hs c (by simp [hafter, hc]))

end

/-- A word in front of blanks is empty. -/
theorem blank_of_starts {s b v rest : List Char} {k : Char} (hs : PlainValue s) (hne : b ≠ [])
    (hb : AllBlank b) (heq : s ++ k :: v = b ++ rest) : s = [] ∧ isBlank k = true := by
  obtain ⟨e, b, rfl⟩ := List.exists_cons_of_ne_nil hne
  have he := hb e (by simp)
  cases s with
  | nil =>
    obtain ⟨rfl, -⟩ := List.cons.inj heq
    exact ⟨rfl, he⟩
  | cons c s =>
    obtain ⟨rfl, -⟩ := List.cons.inj heq
    exact absurd (Or.inr (Or.inr he)) (hs c (by simp)).1

/-- A word in front of a character that does not close a mention holds this character. -/
theorem exists_cons_of_not_closes {s v rest : List Char} {k c : Char} (hc : closesLoose c = false)
    (hk : closesLoose k = true) (heq : s ++ k :: v = c :: rest) :
    ∃ s', s = c :: s' ∧ s' ++ k :: v = rest := by
  cases s with
  | nil =>
    obtain ⟨rfl, -⟩ := List.cons.inj heq
    rw [hc] at hk
    cases hk
  | cons e s =>
    obtain ⟨rfl, hrest⟩ := List.cons.inj heq
    exact ⟨s, rfl, hrest⟩

namespace Tail

variable {pass : Pass} {key tail : List Char} (h : Tail pass key tail)
include h

/-- The only word after a keyword is the equals sign of an attribute. -/
theorem word_eq {u t v : List Char} {d k : Char} (heq : tail = u ++ d :: (t ++ k :: v))
    (hd : Opens d) (hk : closesLoose k = true) (ht : PlainValue t) (hne : t ≠ []) :
    t = ['='] := by
  cases h with
  | quote _ _ hb hq =>
    exact absurd heq (ne_of_opens ht hne (opens_append hb.opens (opens_quote hq)))
  | paren _ hb hb' hquote =>
    have hparen := opens_paren (opens_append hb'.opens (opens_of_quote? hquote))
    exact absurd heq (ne_of_opens ht hne (opens_append hb.opens hparen))
  | sign _ _ hb hb' hq =>
    exact eq_sign_of_word ht hne hb.opens (opens_append hb'.opens (opens_quote hq)) heq
  | nested _ hnil hb hurl hb' hq =>
    exact absurd heq (ne_of_nested ht hne hnil hb.opens hurl
      (opens_append hb'.opens (opens_quote hq)) hd hk)

/-- What comes after a keyword starts with no word but the equals sign of an attribute, and what
closes a mention at its start is a blank. -/
theorem starts {s v : List Char} {k : Char} (heq : tail = s ++ k :: v) (hs : PlainValue s)
    (hk : closesLoose k = true) :
    (s = [] ∧ isBlank k = true ∧ pass ≠ .cssUrl) ∨ (s = ['='] ∧ Key key) := by
  cases h with
  | quote hpass hne hb _ =>
    obtain ⟨hnil, hk'⟩ := blank_of_starts hs hne hb heq.symm
    exact Or.inl ⟨hnil, hk', hpass⟩
  | @paren b b' t hpass hb _ _ =>
    by_cases hne : b = []
    · -- the parenthesis neither closes a mention nor is it part of a word
      subst hne
      obtain ⟨s, rfl, -⟩ := exists_cons_of_not_closes (by decide) hk heq.symm
      exact absurd (Or.inr (Or.inl rfl)) (hs '(' List.mem_cons_self).1
    · obtain ⟨hnil, hk'⟩ := blank_of_starts hs hne hb heq.symm
      exact Or.inl ⟨hnil, hk', fun hurl => hne (hpass hurl)⟩
  | @sign b b' q hpass hkey hb hb' hq =>
    by_cases hne : b = []
    · -- the word is the sign, since blanks and a quote come after that
      subst hne
      obtain ⟨s, rfl, htail⟩ := exists_cons_of_not_closes (by decide) hk heq.symm
      cases s with
      | nil => exact Or.inr ⟨rfl, hkey⟩
      | cons c s =>
        have hopens := opens_append hb'.opens (opens_quote hq)
        exact absurd (hopens c (by simp [← htail])) (hs c (by simp)).1
    · obtain ⟨hnil, hk'⟩ := blank_of_starts hs hne hb heq.symm
      refine Or.inl ⟨hnil, hk', ?_⟩
      rcases hpass with rfl | rfl
      · exact ne_cssUrl (by decide)
      · exact ne_cssUrl (by decide)
  | nested hpass hne hb _ _ _ =>
    obtain ⟨hnil, hk'⟩ := blank_of_starts hs hne hb heq.symm
    exact Or.inl ⟨hnil, hk', hpass⟩

end Tail

/-! ## Words before a mention -/

section

variable {pass : Pass} (hpass : pass ∈ Pass.all) {o br : List Char}
  (ho : Matches pass.opening o) (hbr : Matches pass.bridge br)
include hpass ho hbr

/-- The only word within what stands before a mention is the equals sign of an attribute. -/
theorem word_of_front {u t v : List Char} {d k : Char} (heq : o ++ br = u ++ d :: (t ++ k :: v))
    (hd : Opens d) (hk : closesLoose k = true) (ht : PlainValue t) (hne : t ≠ []) : t = ['='] := by
  rcases front_keyword hpass ho hbr with ⟨-, rfl, e, -, rfl⟩ | ⟨w, key, tail, h⟩
  · have hlen := congrArg List.length heq
    simp only [List.length_append, List.length_cons, List.length_nil] at hlen
    omega
  · have hkey : d ∉ key := fun hmem =>
      (isKeyChar_of_keyword h.keyword h.spelled d hmem).not_delimits (Or.inl hd)
    rw [h.front] at heq
    obtain ⟨u', -, htail⟩ := of_append_eq_append_mark heq hkey
    exact h.isTail.word_eq htail hd hk ht hne

/-- What stands before a mention starts with a word only if that is a keyword, which may be written
in any letter case, and what closes a mention after it is a blank. -/
theorem key_of_front {s v : List Char} {k : Char} (heq : o ++ br = s ++ k :: v) (hs : PlainValue s)
    (hne : s ≠ []) (hsign : ¬ EndsAttribute s) (hk : closesLoose k = true) :
    pass ≠ .loose ∧ pass ≠ .cssUrl ∧ isBlank k = true ∧ ∃ w ∈ keywords, Spelled w.toList s ∧
      ∀ s', Spelled w.toList s' → ∃ o', Matches pass.opening o' ∧ o' ++ br = s' ++ k :: v := by
  -- a loose mention has one character before the name, too few for a word and what closes it
  have hlen : 2 ≤ (o ++ br).length := by
    have hpos := List.length_pos_iff.2 hne
    rw [heq, List.length_append, List.length_cons]
    omega
  have hloose : pass ≠ .loose := by
    rintro rfl
    obtain ⟨d, rfl, -⟩ := matches_one_iff.1 ho
    obtain rfl := matches_empty_iff.1 hbr
    simp at hlen
  rcases front_keyword hpass ho hbr with ⟨h, -⟩ | ⟨w, key, tail, h⟩
  · exact absurd h hloose
  · -- the keyword has no character that closes a mention, so the word starts with all of it
    have hkey : k ∉ key := fun hmem =>
      (isKeyChar_of_keyword h.keyword h.spelled k hmem).not_delimits (Or.inr hk)
    rw [h.front] at heq
    obtain ⟨s', rfl, htail⟩ := of_append_eq_append_mark heq hkey
    rcases h.isTail.starts htail (fun c hc => hs c (by simp [hc])) hk with
      ⟨rfl, hblank, hurl⟩ | ⟨rfl, hattribute⟩
    · rw [List.nil_append] at htail
      rw [List.append_nil]
      refine ⟨hloose, hurl, hblank, w, h.keyword, h.spelled, fun s' hs' => ?_⟩
      rw [← htail]
      exact h.anew s' hs'
    · exact absurd ⟨key, hattribute, List.suffix_rfl⟩ hsign

/-- What stands before a mention is a single delimiter, or starts with a character of a keyword. -/
theorem head_of_front {c : Char} {v : List Char} (heq : o ++ br = c :: v) :
    (pass = .loose ∧ v = []) ∨ IsKeyChar c := by
  rcases front_keyword hpass ho hbr with ⟨hloose, rfl, e, -, rfl⟩ | ⟨w, key, tail, h⟩
  · exact Or.inl ⟨hloose, by simpa using (List.cons.inj heq).2.symm⟩
  · right
    obtain ⟨c', key', rfl⟩ := List.exists_cons_of_ne_nil (key_ne_nil h.keyword h.spelled)
    rw [h.front] at heq
    obtain ⟨rfl, -⟩ := List.cons.inj heq
    exact isKeyChar_of_keyword h.keyword h.spelled c' (by simp)

end

end SiteFolders.Reference
