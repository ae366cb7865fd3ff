import SiteFolders.Proofs.Reference.Reading

/-!
# What opens a mention

What stands before the leading segments of a mention is a single delimiter, or a keyword and what
comes after it in the table of passes (`front_keyword`). So it ends in a quote, an opening
parenthesis or a blank, and holds no quote before that (`front_cases`). The keyword may be written
in any letter case.
-/

namespace SiteFolders.Reference

open SiteFolders.Text Regex

/-! ## Fronts -/

/-- No quote is in the text. -/
def NoQuote (s : List Char) : Prop := ∀ c ∈ s, ¬ IsQuote c

instance (s : List Char) : Decidable (NoQuote s) := List.decidableBAll _ s

theorem NoQuote.append {s t : List Char} (hs : NoQuote s) (ht : NoQuote t) : NoQuote (s ++ t) := by
  intro c hc
  rcases List.mem_append.1 hc with hc | hc
  · exact hs c hc
  · exact ht c hc

theorem NoQuote.cons {c : Char} {s : List Char} (hc : ¬ IsQuote c) (hs : NoQuote s) :
    NoQuote (c :: s) := by
  intro k hk
  rcases List.mem_cons.1 hk with rfl | hk
  · exact hc
  · exact hs k hk

theorem noQuote_of_spelled {w s : List Char} (hw : NoQuote w) (h : Spelled w s) : NoQuote s :=
  fun c hc hq => hw c ((h.mem_iff (Or.inl hq.isMark)).1 hc) hq

theorem AllBlank.noQuote {s : List Char} (h : AllBlank s) : NoQuote s := by
  intro c hc hq
  have hblank := h c hc
  rw [hq.not_isBlank] at hblank
  simp at hblank

/-- A keyword of the attributes, in any letter case. -/
def Key (kw : List Char) : Prop := Spelled "href".toList kw ∨ Spelled "src".toList kw

theorem Key.isLetter {kw : List Char} (h : Key kw) : ∀ c ∈ kw, IsLetter c := by
  rcases h with h | h
  · exact isLetter_of_spelled (by decide) h
  · exact isLetter_of_spelled (by decide) h

theorem Key.ne_nil {kw : List Char} (h : Key kw) : kw ≠ [] := by
  rintro rfl
  rcases h with h | h <;> simpa using h.length_eq

theorem Key.noQuote {kw : List Char} (h : Key kw) : NoQuote kw :=
  fun c hc hq => (h.isLetter c hc).not_opens (Or.inl hq)

/-- What stands before a mention in an attribute. -/
def KeyFront (s : List Char) : Prop :=
  ∃ w b b' q, Key w ∧ AllBlank b ∧ AllBlank b' ∧ IsQuote q ∧ s = w ++ (b ++ '=' :: (b' ++ [q]))

/-- What stands before a mention that is neither loose nor in an attribute: more than one
character, of which only the last one can be a quote, and then a parenthesis or a blank comes
before it. -/
def Fronts (s : List Char) : Prop :=
  ∃ x d, s = x ++ [d] ∧ x ≠ [] ∧ Opens d ∧ NoQuote x ∧
    (IsQuote d → ∃ e, x.getLast? = some e ∧ (e = '(' ∨ isBlank e = true))

theorem fronts_blanks {u b : List Char} {q : Char} (hu : NoQuote u) (hb : b ≠ [])
    (hblank : AllBlank b) (hq : IsQuote q) : Fronts (u ++ (b ++ [q])) := by
  refine ⟨u ++ b, q, by simp, by simp [hb], Or.inl hq, hu.append hblank.noQuote, fun _ => ?_⟩
  refine ⟨b.getLast hb, ?_, Or.inr (hblank _ (List.getLast_mem hb))⟩
  rw [List.getLast?_append_of_ne_nil _ hb, List.getLast?_eq_some_getLast hb]

theorem getLast?_paren {b : List Char} (h : AllBlank b) (u : List Char) :
    ∃ e, (u ++ '(' :: b).getLast? = some e ∧ (e = '(' ∨ isBlank e = true) := by
  rw [List.getLast?_append_of_ne_nil _ (by simp), List.getLast?_cons]
  cases hlast : b.getLast? with
  | none => exact ⟨'(', rfl, Or.inl rfl⟩
  | some e => exact ⟨e, rfl, Or.inr (h e (List.mem_of_getLast? hlast))⟩

theorem fronts_paren {u b : List Char} {q : Char} (hu : NoQuote u) (hblank : AllBlank b)
    (hq : IsQuote q) : Fronts (u ++ ('(' :: (b ++ [q]))) :=
  ⟨u ++ '(' :: b, q, by simp, by simp, Or.inl hq,
    hu.append (hblank.noQuote.cons (by decide)), fun _ => getLast?_paren hblank u⟩

theorem fronts_bare {u b : List Char} (hne : u ≠ []) (hu : NoQuote u) (hblank : AllBlank b) :
    Fronts (u ++ '(' :: b) := by
  rcases List.eq_nil_or_concat b with rfl | ⟨b', e, rfl⟩
  · exact ⟨u, '(', rfl, hne, Or.inr (Or.inl rfl), hu, fun hq => absurd hq (by decide)⟩
  · rw [List.concat_eq_append] at hblank ⊢
    have he : isBlank e = true := hblank e (by simp)
    refine ⟨u ++ '(' :: b', e, by simp, by simp, Or.inr (Or.inr he), ?_, fun hq => ?_⟩
    · exact hu.append (NoQuote.cons (by decide) fun c hc => hblank.noQuote c (by simp [hc]))
    · simp [hq.not_isBlank] at he

/-! ## Keywords -/

/-- The keywords that read another file in a script. -/
def scriptKeywords : List String := ["include_once", "include", "require_once", "require"]

/-- The keywords of the passes. -/
def keywords : List String := ["href", "src", "url", "from", "import", "@import"] ++ scriptKeywords

theorem noQuote_keyword {w : String} (hw : w ∈ keywords) {key : List Char}
    (h : Spelled w.toList key) : NoQuote key := by
  have hall : ∀ w ∈ keywords, NoQuote w.toList := by decide
  exact noQuote_of_spelled (hall w hw) h

theorem key_ne_nil {w : String} (hw : w ∈ keywords) {key : List Char} (h : Spelled w.toList key) :
    key ≠ [] := by
  have hall : ∀ w ∈ keywords, w.toList ≠ [] := by decide
  rintro rfl
  exact hall w hw (List.forall₂_nil_right_iff.1 h)

theorem matches_phpKeyword_iff {s : List Char} :
    Matches phpKeyword s ↔ ∃ w ∈ scriptKeywords, Spelled w.toList s := by
  simp only [phpKeyword, choice, matches_alt_iff, matches_word_iff, scriptKeywords, List.mem_cons,
    List.not_mem_nil, or_false, exists_eq_or_imp, exists_eq_left]

/-- What comes after the keyword in front of a mention. -/
inductive Tail (pass : Pass) (key : List Char) : List Char → Prop where
  /-- Blanks and a quote. -/
  | quote {b q} (hpass : pass ≠ .cssUrl) (hne : b ≠ []) (hb : AllBlank b) (hq : IsQuote q) :
    Tail pass key (b ++ [q])
  /-- A parenthesis and maybe a quote. -/
  | paren {b b' t} (hpass : pass = .cssUrl → b = []) (hb : AllBlank b) (hb' : AllBlank b')
    (ht : t = [] ∨ ∃ q, t = [q] ∧ IsQuote q) : Tail pass key (b ++ '(' :: (b' ++ t))
  /-- The equals sign of an attribute and a quote. -/
  | sign {b b' q} (hpass : pass = .href ∨ pass = .src) (hkey : Key key) (hb : AllBlank b)
    (hb' : AllBlank b') (hq : IsQuote q) : Tail pass key (b ++ '=' :: (b' ++ [q]))
  /-- A second keyword between blanks and a parenthesis, and a quote. -/
  | nested {b url b' q} (hpass : pass ≠ .cssUrl) (hne : b ≠ []) (hb : AllBlank b)
    (hurl : Spelled "url".toList url) (hb' : AllBlank b') (hq : IsQuote q) :
    Tail pass key (b ++ (url ++ '(' :: (b' ++ [q])))

/-- What stands before a mention is a keyword and what comes after it, and the keyword may be
written in any letter case. -/
structure KeywordFront (pass : Pass) (o br : List Char) (w : String) (key tail : List Char) :
    Prop where
  keyword : w ∈ keywords
  spelled : Spelled w.toList key
  front : o ++ br = key ++ tail
  isTail : Tail pass key tail
  anew : ∀ key', Spelled w.toList key' → ∃ o', Matches pass.opening o' ∧ o' ++ br = key' ++ tail

/-! ## The table of passes -/

theorem ne_cssUrl {pass : Pass} (h : pass.name ≠ "css-url") : pass ≠ .cssUrl := by
  rintro rfl
  exact h rfl

theorem matches_foldl_seq {rs : List Regex} {r : Regex} {s : List Char} :
    Matches (rs.foldl .seq r) s ↔
      ∃ u v, s = u ++ v ∧ Matches r u ∧ Matches (rs.foldr .seq .empty) v := by
  induction rs generalizing r s with
  | nil => simp [matches_empty_iff]
  | cons r' rs ih =>
    simp only [List.foldl_cons, List.foldr_cons, ih, matches_seq_iff]
    constructor
    · rintro ⟨_, v, rfl, ⟨u, u', rfl, hu, hu'⟩, hv⟩
      exact ⟨u, u' ++ v, by simp, hu, u', v, rfl, hu', hv⟩
    · rintro ⟨u, _, rfl, hu, u', v, rfl, hu', hv⟩
      exact ⟨u ++ u', v, by simp, ⟨u, u', rfl, hu, hu'⟩, hv⟩

/-- An opening that starts with a keyword. -/
theorem keywordFront_of_concat {pass : Pass} {w : String} {rs : List Regex} {o br : List Char}
    (hw : w ∈ keywords) (hopening : pass.opening = .concat (word w :: rs))
    (hbridge : pass.bridge = .empty) (ho : Matches pass.opening o) (hbr : Matches pass.bridge br)
    (htail : ∀ key tail, Spelled w.toList key → Matches (rs.foldr .seq .empty) tail →
      Tail pass key tail) : ∃ w key tail, KeywordFront pass o br w key tail := by
  rw [hbridge, matches_empty_iff] at hbr
  rw [hopening, concat, matches_foldl_seq] at ho
  obtain ⟨key, tail, rfl, hkey, hrest⟩ := ho
  rw [matches_word_iff] at hkey
  refine ⟨w, key, tail, hw, hkey, by simp [hbr], htail key tail hkey hrest, ?_⟩
  intro key' hkey'
  refine ⟨key' ++ tail, ?_, by simp [hbr]⟩
  rw [hopening, concat, matches_foldl_seq]
  exact ⟨key', tail, rfl, matches_word_iff.2 hkey', hrest⟩

/-- An opening that is a keyword. -/
theorem keywordFront_of_script {pass : Pass} {o br : List Char}
    (hopening : pass.opening = phpKeyword) (ho : Matches pass.opening o)
    (hbr : ∀ key, Tail pass key br) : ∃ w key tail, KeywordFront pass o br w key tail := by
  rw [hopening, matches_phpKeyword_iff] at ho
  obtain ⟨w, hw, ho⟩ := ho
  refine ⟨w, o, br, List.mem_append_right _ hw, ho, rfl, hbr o, ?_⟩
  intro key' hkey'
  refine ⟨key', ?_, rfl⟩
  rw [hopening, matches_phpKeyword_iff]
  exact ⟨w, hw, hkey'⟩

theorem tail_sign {pass : Pass} {key tail : List Char} (hpass : pass = .href ∨ pass = .src)
    (hkey : Key key) (h : Matches ([blanks, mark '=', blanks, quote].foldr .seq .empty) tail) :
    Tail pass key tail := by
  simp only [List.foldr, matches_seq_iff, matches_empty_iff, matches_mark_iff,
    matches_quote_iff, matches_blanks_iff] at h
  obtain ⟨b, _, rfl, hb, _, _, rfl, rfl, b', _, rfl, hb', _, _, rfl, ⟨q, rfl, hq⟩, rfl⟩ := h
  exact .sign hpass hkey hb hb' hq

theorem tail_quote {pass : Pass} {key tail : List Char} (hpass : pass ≠ .cssUrl)
    (h : Matches ([someBlanks, quote].foldr .seq .empty) tail) : Tail pass key tail := by
  simp only [List.foldr, matches_seq_iff, matches_empty_iff, matches_quote_iff,
    matches_someBlanks_iff] at h
  obtain ⟨b, _, rfl, ⟨hne, hb⟩, _, _, rfl, ⟨q, rfl, hq⟩, rfl⟩ := h
  exact .quote hpass hne hb hq

theorem tail_url {key tail : List Char}
    (h : Matches ([mark '(', blanks, .opt quote].foldr .seq .empty) tail) :
    Tail .cssUrl key tail := by
  simp only [List.foldr, matches_seq_iff, matches_empty_iff, matches_mark_iff, matches_opt_iff,
    matches_quote_iff, matches_blanks_iff] at h
  obtain ⟨_, _, rfl, rfl, b, _, rfl, hb, v, _, rfl, hv, rfl⟩ := h
  have htail : Tail .cssUrl key ([] ++ '(' :: (b ++ v)) :=
    .paren (fun _ => rfl) (by simp [AllBlank]) hb hv.symm
  simpa using htail

/-- A stylesheet import may open with a second keyword. -/
theorem tail_nested {pass : Pass} {key tail : List Char} (hpass : pass ≠ .cssUrl)
    (h : Matches ([someBlanks, .opt (.concat [word "url", mark '(', blanks]), quote].foldr .seq
      .empty) tail) : Tail pass key tail := by
  simp only [List.foldr, concat, List.foldl, matches_seq_iff, matches_empty_iff, matches_mark_iff,
    matches_word_iff, matches_opt_iff, matches_quote_iff, matches_blanks_iff,
    matches_someBlanks_iff] at h
  obtain ⟨b, _, rfl, ⟨hne, hb⟩, v, _, rfl, hv, _, _, rfl, ⟨q, rfl, hq⟩, rfl⟩ := h
  rcases hv with ⟨_, b', rfl, ⟨url, _, rfl, hurl, rfl⟩, hb'⟩ | rfl
  · simpa using Tail.nested hpass hne hb hurl hb' hq
  · exact .quote hpass hne hb hq

/-- In a call, a parenthesis and a quote stand between the keyword and the file, maybe with blanks. -/
theorem of_matches_callBridge {br : List Char} (h : Matches Pass.phpIncludeCall.bridge br) :
    ∃ b b' q, br = b ++ '(' :: (b' ++ [q]) ∧ AllBlank b ∧ AllBlank b' ∧ IsQuote q := by
  simp only [Pass.phpIncludeCall, concat, List.foldl, matches_seq_iff, matches_mark_iff,
    matches_quote_iff, matches_blanks_iff] at h
  obtain ⟨_, _, rfl, ⟨_, b', rfl, ⟨b, _, rfl, hb, rfl⟩, hb'⟩, q, rfl, hq⟩ := h
  exact ⟨b, b', q, by simp, hb, hb', hq⟩

/-- In a statement, blanks and a quote stand between the keyword and the file. -/
theorem of_matches_statementBridge {br : List Char}
    (h : Matches Pass.phpIncludeStatement.bridge br) :
    ∃ b q, br = b ++ [q] ∧ b ≠ [] ∧ AllBlank b ∧ IsQuote q := by
  simp only [Pass.phpIncludeStatement, concat, List.foldl, matches_seq_iff, matches_quote_iff,
    matches_someBlanks_iff] at h
  obtain ⟨b, _, rfl, ⟨hne, hb⟩, q, rfl, hq⟩ := h
  exact ⟨b, q, rfl, hne, hb, hq⟩

/-- A call ends in a quote and a parenthesis, maybe with blanks. -/
theorem of_matches_callClosing {cl : List Char} (h : Matches Pass.phpIncludeCall.closing cl) :
    ∃ q b, cl = q :: (b ++ [')']) ∧ IsQuote q ∧ AllBlank b := by
  simp only [Pass.phpIncludeCall, concat, List.foldl, matches_seq_iff, matches_mark_iff,
    matches_quote_iff, matches_blanks_iff] at h
  obtain ⟨_, _, rfl, ⟨_, b, rfl, ⟨q, rfl, hq⟩, hb⟩, rfl⟩ := h
  exact ⟨q, b, rfl, hq, hb⟩

/-- What stands before a mention is a single delimiter, or a keyword and what comes after it. -/
theorem front_keyword {pass : Pass} (hpass : pass ∈ Pass.all) {o br : List Char}
    (ho : Matches pass.opening o) (hbr : Matches pass.bridge br) :
    (pass = .loose ∧ br = [] ∧ ∃ d, Opens d ∧ o = [d]) ∨
      ∃ w key tail, KeywordFront pass o br w key tail := by
  simp only [Pass.all, List.mem_cons, List.not_mem_nil, or_false] at hpass
  rcases hpass with rfl | rfl | rfl | rfl | rfl | rfl | rfl | rfl | rfl
  -- the attributes
  · refine Or.inr (keywordFront_of_concat (w := "href") (by decide) rfl rfl ho hbr ?_)
    intro key tail hkey h
    exact tail_sign (Or.inl rfl) (Or.inl hkey) h
  · refine Or.inr (keywordFront_of_concat (w := "src") (by decide) rfl rfl ho hbr ?_)
    intro key tail hkey h
    exact tail_sign (Or.inr rfl) (Or.inr hkey) h
  -- addresses in a stylesheet
  · refine Or.inr (keywordFront_of_concat (w := "url") (by decide) rfl rfl ho hbr ?_)
    intro key tail _ h
    exact tail_url h
  -- imports of scripts and of stylesheets
  · refine Or.inr (keywordFront_of_concat (w := "from") (by decide) rfl rfl ho hbr ?_)
    intro key tail _ h
    exact tail_quote (ne_cssUrl (by decide)) h
  · refine Or.inr (keywordFront_of_concat (w := "import") (by decide) rfl rfl ho hbr ?_)
    intro key tail _ h
    exact tail_quote (ne_cssUrl (by decide)) h
  · refine Or.inr (keywordFront_of_concat (w := "@import") (by decide) rfl rfl ho hbr ?_)
    intro key tail _ h
    exact tail_nested (ne_cssUrl (by decide)) h
  -- included files, where the bridge stands between the keyword and the file
  · refine Or.inr (keywordFront_of_script rfl ho fun key => ?_)
    obtain ⟨b, b', q, rfl, hb, hb', hq⟩ := of_matches_callBridge hbr
    exact .paren (fun h => absurd h (ne_cssUrl (by decide))) hb hb' (Or.inr ⟨q, rfl, hq⟩)
  · refine Or.inr (keywordFront_of_script rfl ho fun key => ?_)
    obtain ⟨b, q, rfl, hne, hb, hq⟩ := of_matches_statementBridge hbr
    exact .quote (ne_cssUrl (by decide)) hne hb hq
  -- a loose mention opens with a delimiter
  · left
    obtain ⟨d, rfl, hd⟩ := matches_one_iff.1 ho
    refine ⟨rfl, matches_empty_iff.1 hbr, d, ?_, rfl⟩
    simpa [Opens, IsQuote, or_assoc] using hd

/-- What stands before the leading segments of a mention. -/
theorem front_cases {pass : Pass} (hpass : pass ∈ Pass.all) {o br : List Char}
    (ho : Matches pass.opening o) (hbr : Matches pass.bridge br) :
    (pass = .loose ∧ br = [] ∧ ∃ d, Opens d ∧ o = [d]) ∨
      ((pass = .href ∨ pass = .src) ∧ br = [] ∧ KeyFront o) ∨ Fronts (o ++ br) := by
  rcases front_keyword hpass ho hbr with hloose |
    ⟨w, key, tail, hkeyword, hspelled, hfront, htail, -⟩
  · exact Or.inl hloose
  right
  have hkey : NoQuote key := noQuote_keyword hkeyword hspelled
  rw [hfront]
  -- a keyword is followed by a quote, a parenthesis, an equals sign or a second keyword
  cases htail with
  | quote _ hne hb hq => exact Or.inr (fronts_blanks hkey hne hb hq)
  | @paren b b' t _ hb hb' ht =>
    right
    rw [← List.append_assoc]
    rcases ht with rfl | ⟨q, rfl, hq⟩
    · rw [List.append_nil]
      exact fronts_bare (by simp [key_ne_nil hkeyword hspelled]) (hkey.append hb.noQuote) hb'
    · exact fronts_paren (hkey.append hb.noQuote) hb' hq
  | @sign b b' q hattribute hattr hb hb' hq =>
    have hnil : br = [] := by
      rcases hattribute with rfl | rfl
      · exact matches_empty_iff.1 hbr
      · exact matches_empty_iff.1 hbr
    rw [hnil, List.append_nil] at hfront
    exact Or.inl ⟨hattribute, hnil, key, b, b', q, hattr, hb, hb', hq, hfront⟩
  | @nested b url b' q _ _ hb hurl hb' hq =>
    right
    have hnone : NoQuote url := noQuote_of_spelled (by decide) hurl
    rw [← List.append_assoc, ← List.append_assoc]
    exact fronts_paren ((hkey.append hb.noQuote).append hnone) hb' hq

end SiteFolders.Reference
