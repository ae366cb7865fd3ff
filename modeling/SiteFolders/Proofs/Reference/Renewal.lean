import SiteFolders.Proofs.Reference.Mentions

/-!
# Writing one mention anew

Where one mention is written anew, the text around it stays, and so do the mentions in it: a mention
of the text that comes out is in the place of the new one, or stands before it, or after it
(`renew_cases`), and in the last two cases it is a mention of the former text too
(`exists_mention_of_before`, `exists_mention_of_after`). This needs names that are words, and
references that end in a keyword only where the names do (`Steady`).
-/

namespace SiteFolders.Reference

open SiteFolders.Text Regex

/-! ## What is written -/

/-- What stands between the opening and the reference in a mention that is written anew. -/
def Style.bridge (style : Style) (br : List Char) : List Char :=
  match style with
  | .delimited => br
  | .call => ['(', '"']
  | .statement => [' ', '"']

/-- What comes after the reference. -/
def Style.closing (style : Style) (cl : List Char) : List Char :=
  match style with
  | .delimited => cl
  | .call => ['"', ')']
  | .statement => ['"']

/-- The parts of a mention that is written anew. -/
def Parts.renew (p : Parts) (style : Style) (reference : List Char) : Parts where
  opening := p.opening
  bridge := style.bridge p.bridge
  lead := []
  name := reference
  closing := style.closing p.closing
  rest := p.rest

theorem style_cases {pass : Pass} (hpass : pass ∈ Pass.all) :
    (pass.style = .delimited ∧ pass.bridge = .empty ∧
      (pass.keepsClosing = true ∨ pass.closing = .empty)) ∨
    pass = .phpIncludeCall ∨ pass = .phpIncludeStatement := by
  simp only [Pass.all, List.mem_cons, List.not_mem_nil, or_false] at hpass
  rcases hpass with rfl | rfl | rfl | rfl | rfl | rfl | rfl | rfl | rfl
  case inr.inr.inr.inr.inr.inr.inl => exact Or.inr (Or.inl rfl)
  case inr.inr.inr.inr.inr.inr.inr.inl => exact Or.inr (Or.inr rfl)
  case inr.inr.inr.inr.inr.inr.inr.inr => exact Or.inl ⟨rfl, rfl, Or.inr rfl⟩
  all_goals exact Or.inl ⟨rfl, rfl, Or.inl rfl⟩

section

variable {pass : Pass} (hpass : pass ∈ Pass.all) {name : List Char} {p : Parts}
include hpass

theorem render_eq (h : Reads pass name p) (reference : List Char) :
    pass.style.render (p.hit pass) reference = (p.renew pass.style reference).mentionText := by
  rcases style_cases hpass with ⟨hstyle, hbridge, hcloses⟩ | rfl | rfl
  · have hbr : p.bridge = [] := by
      have := h.bridge
      rwa [hbridge, matches_empty_iff] at this
    have hclosing : (p.hit pass).closing = p.closing := by
      rcases hcloses with hkeeps | hempty
      · simp [Parts.hit, hkeeps]
      · have hnil := h.closing
        rw [hempty, matches_empty_iff] at hnil
        simp [Parts.hit, hnil]
    have hopening : (p.hit pass).opening = p.opening := rfl
    simp [hstyle, Style.render, Parts.renew, Parts.mentionText, Style.bridge, Style.closing, hbr,
      hclosing, hopening]
  · simp [Pass.phpIncludeCall, Style.render, Parts.renew, Parts.mentionText, Style.bridge,
      Style.closing, Parts.hit]
  · simp [Pass.phpIncludeStatement, Style.render, Parts.renew, Parts.mentionText, Style.bridge,
      Style.closing, Parts.hit]

/-- What is put in front of the reference is what the pass looks for there. -/
theorem matches_style_bridge {br : List Char} (h : Matches pass.bridge br) :
    Matches pass.bridge (pass.style.bridge br) := by
  rcases style_cases hpass with ⟨hstyle, -⟩ | rfl | rfl
  · rw [hstyle]
    exact h
  · exact .seq (.seq (.seq .done (matches_mark_iff.2 rfl)) .done)
      (matches_quote_iff.2 ⟨'"', rfl, Or.inl rfl⟩)
  · have hblank : Matches someBlanks [' '] :=
      matches_someBlanks_iff.2 ⟨by simp, fun c hc => by rw [List.mem_singleton.1 hc]; rfl⟩
    exact .seq hblank (matches_quote_iff.2 ⟨'"', rfl, Or.inl rfl⟩)

/-- What is put behind the reference is what the pass looks for there. -/
theorem matches_style_closing {cl : List Char} (h : Matches pass.closing cl) :
    Matches pass.closing (pass.style.closing cl) := by
  rcases style_cases hpass with ⟨hstyle, -⟩ | rfl | rfl
  · rw [hstyle]
    exact h
  · exact .seq (.seq (matches_quote_iff.2 ⟨'"', rfl, Or.inl rfl⟩) .done) (matches_mark_iff.2 rfl)
  · exact matches_quote_iff.2 ⟨'"', rfl, Or.inl rfl⟩

/-- A mention that is written anew is one of the reference. -/
theorem IsMention.renew (h : IsMention pass name p) (reference : List Char) :
    IsMention pass reference (p.renew pass.style reference) where
  opening := h.opening
  bridge := matches_style_bridge hpass h.bridge
  lead := .done
  name := by
    rw [Pass.nameRegex, matches_literal_iff]
    refine List.forall₂_same.2 fun c _ => ?_
    split <;> simp
  closing := matches_style_closing hpass h.closing
  ahead := h.ahead

end

/-! ## Where mentions stand after a renewal -/

/-- The opening of a mention that is written anew as a statement or a call is a keyword. -/
theorem opening_last {pass : Pass} (hpass : pass.opening = phpKeyword) {o : List Char}
    (h : Matches pass.opening o) : ∃ u c, o = u ++ [c] ∧ IsKeyChar c := by
  rw [hpass, matches_phpKeyword_iff] at h
  obtain ⟨w, hw, ho⟩ := h
  have hmem : w ∈ keywords := List.mem_append_right _ hw
  rcases List.eq_nil_or_concat o with rfl | ⟨u, c, rfl⟩
  · exact absurd rfl (key_ne_nil hmem ho)
  · rw [List.concat_eq_append] at ho ⊢
    exact ⟨u, c, rfl, isKeyChar_of_keyword hmem ho c (by simp)⟩

section

variable {pass other : Pass} (hpass : pass ∈ Pass.all) (hother : other ∈ Pass.all)
  {name name' reference : List Char} (hreference : IsWord reference) (hname' : IsWord name')
  {p p' : Parts} (h : IsMention pass name p) (h' : IsMention other name' p')
  {a b : List Char}
include hpass hother hreference hname' h h'

/-- A mention after a renewal is in the place of the new one, or comes before or after it. -/
theorem renew_cases (heq : a ++ (p.renew pass.style reference).text = b ++ p'.text) :
    (a ++ (p.renew pass.style reference).front = b ++ p'.front ∧ p'.word = reference ∧
      p'.follow = (p.renew pass.style reference).follow) ∨
    (∃ w, a ++ (p.renew pass.style reference).front = b ++ (p'.front ++ (p'.word ++ w)) ∧
      p'.follow = w ++ (reference ++ (p.renew pass.style reference).follow)) ∨
    ∃ w, b ++ p'.front = a ++ ((p.renew pass.style reference).front ++ (reference ++ w)) ∧
      (p.renew pass.style reference).follow = w ++ (p'.word ++ p'.follow) := by
  have hnew := h.renew hpass reference
  have hword : (p.renew pass.style reference).word = reference := by simp [Parts.word, Parts.renew]
  have hat := hnew.wordAt hpass hreference a
  have hat' := h'.wordAt hother hname' b
  rw [Parts.text_eq, Parts.text_eq, ← List.append_assoc, ← List.append_assoc b] at heq
  rw [hword] at hat heq
  rcases hat.cases hat' heq with ⟨hfront, hsame, hfollow⟩ | ⟨w, hfront, hfollow⟩ |
    ⟨w, hfront, hfollow⟩
  · exact Or.inl ⟨hfront, hsame.symm, hfollow.symm⟩
  · exact Or.inr (Or.inr ⟨w, by rw [hfront, List.append_assoc], hfollow⟩)
  · exact Or.inr (Or.inl ⟨w, by rw [hfront, List.append_assoc], hfollow⟩)

end

/-- What is written in front of a reference opens a mention. -/
theorem IsMention.opens_bridge {pass : Pass} (hpass : pass ∈ Pass.all) {name : List Char}
    {p : Parts} (h : IsMention pass name p) : ∀ c ∈ pass.style.bridge p.bridge, Opens c := by
  rcases style_cases hpass with ⟨hstyle, hbridge, -⟩ | rfl | rfl
  · have hnil := h.bridge
    rw [hbridge, matches_empty_iff] at hnil
    simp [hstyle, Style.bridge, hnil]
  · intro c hc
    change c ∈ ['(', '"'] at hc
    rcases List.mem_cons.1 hc with rfl | hc
    · exact Or.inr (Or.inl rfl)
    · exact opens_quote (Or.inl rfl) c hc
  · intro c hc
    change c ∈ [' ', '"'] at hc
    rcases List.mem_cons.1 hc with rfl | hc
    · exact Or.inr (Or.inr rfl)
    · exact opens_quote (Or.inl rfl) c hc

/-- A text that a mention can go on with after its name: what ends the mention, and what its pass
asks for after it. -/
def Parts.GoesOn (p : Parts) (pass : Pass) (text : List Char) : Prop :=
  ∃ rest, text = p.closing ++ rest ∧ ∀ test, pass.ahead = some test → rest.head?.any test = true

/-- A mention can go on as before if the text only changes after a character that ends no mention.
-/
theorem goesOn_of_not_ends {other : Pass} (hother : other ∈ Pass.all) {name' : List Char}
    {p' : Parts} (h' : IsMention other name' p') {v z z' : List Char} {c : Char}
    (hc : ¬ Ends c) (heq : p'.follow = v ++ c :: z) : p'.GoesOn other (v ++ z') := by
  have hnot : c ∉ p'.closing := fun hmem => hc (h'.closing_ends hother c hmem)
  obtain ⟨r, rfl, hrest⟩ := of_append_eq_append_mark heq hnot
  refine ⟨r ++ z', by simp, fun test htest => ?_⟩
  obtain ⟨rfl, rfl⟩ := eq_loose_of_ahead hother htest
  have hnext := h'.ahead _ htest
  rw [hrest] at hnext
  cases r with
  | nil => exact absurd (Or.inl (by simpa using hnext)) hc
  | cons k r => simpa using hnext

/-- A keyword between a delimiter and a blank can only be a loose mention, before a statement is
written anew and after that. -/
theorem goesOn_of_statement {other : Pass} (hother : other ∈ Pass.all) {name' : List Char}
    {p' : Parts} (h' : IsMention other name' p') {z br z' : List Char}
    (heq : p'.follow = ' ' :: '"' :: z) (hbr : Matches Pass.phpIncludeStatement.bridge br) :
    p'.GoesOn other (br ++ z') := by
  obtain ⟨b, _, rfl, hblank, hq⟩ := matches_seq_iff.1 hbr
  obtain ⟨hne, hb⟩ := matches_someBlanks_iff.1 hblank
  obtain ⟨e, b, rfl⟩ := List.exists_cons_of_ne_nil hne
  rw [Parts.follow] at heq
  rcases closing_cases hother h'.closing with ⟨rfl, hnil⟩ | ⟨rfl, b', hb', hcl⟩ |
    ⟨-, q, s, hcl, hq, -⟩
  · refine ⟨_, by rw [hnil]; rfl, fun test htest => ?_⟩
    obtain ⟨-, rfl⟩ := eq_loose_of_ahead hother htest
    simpa using closesLoose_of_isBlank (hb e (by simp))
  · -- a quote stands where the parenthesis would have to be
    rw [hcl] at heq
    cases b' with
    | nil => simp at heq
    | cons k b' =>
      obtain ⟨-, heq⟩ := List.cons.inj heq
      cases b' with
      | nil => simp at heq
      | cons k' b' =>
        obtain ⟨rfl, -⟩ := List.cons.inj heq
        have hquote := hb' '"' (by simp)
        simp [isBlank] at hquote
  · rw [hcl] at heq
    obtain ⟨rfl, -⟩ := List.cons.inj heq
    exact absurd hq (by decide)

section

variable {pass other : Pass} (hpass : pass ∈ Pass.all) (hother : other ∈ Pass.all)
  {name name' reference : List Char} (hreference : IsWord reference) (hname' : IsWord name')
  {p p' : Parts} (h : IsMention pass name p) (h' : IsMention other name' p')
  {a b : List Char}
include hpass hother hreference hname' h h'

omit hother hreference in
/-- What is written in front of the reference are delimiters, so a word before the reference ends
before them. -/
theorem opening_of_before {w : List Char}
    (hfront : a ++ (p.renew pass.style reference).front = b ++ (p'.front ++ (p'.word ++ w))) :
    ∃ v, w = v ++ pass.style.bridge p.bridge ∧
      a ++ p.opening = b ++ (p'.front ++ (p'.word ++ v)) := by
  have hsplit : (a ++ p.opening) ++ pass.style.bridge p.bridge =
      (b ++ (p'.front ++ p'.word)) ++ w := by
    simpa [Parts.front, Parts.renew] using hfront
  rcases List.append_eq_append_iff.1 hsplit with ⟨e, hbefore, hbridge⟩ | ⟨v, hbefore, hw⟩
  · have hword := h'.isWord_word hname'
    rcases List.eq_nil_or_concat e with rfl | ⟨e, c, rfl⟩
    · exact ⟨[], by simpa using hbridge.symm, by simpa using hbefore.symm⟩
    · have hlast := congrArg List.getLast? hbefore
      rw [← List.append_assoc b, List.getLast?_append_of_ne_nil _ hword.ne_nil,
        List.concat_eq_append, ← List.append_assoc _ e, List.getLast?_concat] at hlast
      have hopens := h.opens_bridge hpass c (by simp [hbridge])
      exact absurd hopens (hword.plain c (List.mem_of_getLast? hlast)).1
  · exact ⟨v, hw, by simpa using hbefore⟩

/-- A mention that comes before the new one starts before it. -/
theorem start_of_before {w : List Char}
    (hfront : a ++ (p.renew pass.style reference).front = b ++ (p'.front ++ (p'.word ++ w)))
    (hfollow : p'.follow = w ++ (reference ++ (p.renew pass.style reference).follow)) :
    b.length < a.length := by
  by_contra hstart
  obtain ⟨f, d, hf, hd⟩ := h'.front_last hother
  obtain ⟨k, w', rfl, hcloses⟩ : ∃ k w', w = k :: w' ∧ closesLoose k = true := by
    obtain ⟨c, t, rfl, hc⟩ := hreference.not_ends
    exact h'.follow_before hother hc hfollow
  -- its word would stand within what stands before the reference
  obtain ⟨u, hinside⟩ : ∃ u, (p.renew pass.style reference).front =
      u ++ (p'.front ++ (p'.word ++ k :: w')) := by
    rcases List.append_eq_append_iff.1 hfront with ⟨u, -, hinside⟩ | ⟨u, ha, hinside⟩
    · exact ⟨u, hinside⟩
    · have hlen := congrArg List.length ha
      rw [List.length_append] at hlen
      have hnil : u = [] := List.length_eq_zero_iff.1 (by omega)
      rw [hnil] at hinside
      exact ⟨[], by simpa using hinside.symm⟩
  rw [hf, List.append_assoc, ← List.append_assoc u] at hinside
  exact (h.renew hpass reference).front_ne hpass (h'.isWord_word hname') hd hcloses hinside

omit hpass hreference hname' in
/-- A mention can go on as before if the text only changes after a keyword that comes after it. -/
theorem goesOn_of_keyword (hkeyword : pass.opening = phpKeyword) {v z z' : List Char} (hne : v ≠ [])
    (hopening : a ++ p.opening = b ++ (p'.front ++ (p'.word ++ v))) (hfollow : p'.follow = v ++ z) :
    p'.GoesOn other (v ++ z') := by
  obtain ⟨o, c, ho, hc⟩ := opening_last hkeyword h.opening
  rcases List.eq_nil_or_concat v with hnil | ⟨v', c', rfl⟩
  · exact absurd hnil hne
  · rw [List.concat_eq_append] at hopening hfollow ⊢
    have hlast := congrArg List.getLast? hopening
    rw [ho, ← List.append_assoc a, List.getLast?_concat, ← List.append_assoc p'.word,
      ← List.append_assoc p'.front, ← List.append_assoc b, List.getLast?_concat] at hlast
    obtain rfl := Option.some.inj hlast
    rw [List.append_assoc] at hfollow ⊢
    exact goesOn_of_not_ends hother h' hc.not_ends hfollow

/-- A mention that comes before the new one after a renewal stands there before it. -/
theorem exists_mention_of_before {w : List Char}
    (hfront : a ++ (p.renew pass.style reference).front = b ++ (p'.front ++ (p'.word ++ w)))
    (hfollow : p'.follow = w ++ (reference ++ (p.renew pass.style reference).follow)) :
    ∃ rest, IsMention other name' { p' with rest := rest } ∧
      a ++ p.text = b ++ Parts.text { p' with rest := rest } := by
  obtain ⟨v, rfl, hopening⟩ := opening_of_before hpass hname' h h' hfront
  suffices hgoes : p'.GoesOn other (v ++ (p.bridge ++ (p.word ++ p.follow))) by
    obtain ⟨rest, hsplit, hahead⟩ := hgoes
    refine ⟨rest, ⟨⟨h'.opening, h'.bridge, h'.lead, h'.name, h'.closing⟩, hahead⟩, ?_⟩
    have htext : a ++ p.text = (a ++ p.opening) ++ (p.bridge ++ (p.word ++ p.follow)) := by
      simp [Parts.text, Parts.word, Parts.follow]
    rw [htext, hopening]
    simp only [Parts.text, Parts.front, Parts.word, List.append_assoc, ← hsplit]
  rw [List.append_assoc] at hfollow
  rcases style_cases hpass with ⟨hstyle, hbridge, -⟩ | rfl | rfl
  · have hnil := h.bridge
    rw [hbridge, matches_empty_iff] at hnil
    -- the text changes from the reference on, and its first character ends no mention
    obtain ⟨c, rest, rfl, hc⟩ := hreference.not_ends
    rw [hstyle, Style.bridge, hnil, List.nil_append] at hfollow
    exact goesOn_of_not_ends hother h' hc hfollow
  · by_cases hne : v = []
    · -- a parenthesis follows the word, which closes no mention
      obtain ⟨k, z, hk, hcloses⟩ := h'.follow_head hother
      rw [hne, hk] at hfollow
      obtain ⟨rfl, -⟩ := List.cons.inj hfollow
      exact absurd hcloses (by decide)
    · exact goesOn_of_keyword hother h h' rfl hne hopening hfollow
  · by_cases hne : v = []
    · -- the word is the keyword of the statement itself
      rw [hne] at hfollow
      rw [hne, List.nil_append]
      exact goesOn_of_statement hother h' hfollow h.bridge
    · exact goesOn_of_keyword hother h h' rfl hne hopening hfollow

end

/-- How a mention starts that comes after a new one, where `v` stands between that one and its word:
after the new one, or with the quote that ends it, or with a keyword that ends the reference. -/
inductive After (other : Pass) (cl reference v : List Char) (p : Parts) : Prop where
  | later {u} (hv : v = u ++ p.front)
  | quote {u d} (hother : other = .loose) (hv : v = []) (hcl : cl = u ++ [d]) (hd : Opens d)
  | key {k z w r s} (hother : other ≠ .loose) (hurl : other ≠ .cssUrl) (hcl : cl ++ v = k :: z)
    (hk : isBlank k = true) (hw : w ∈ keywords) (hreference : reference = r ++ s)
    (hs : Spelled w.toList s)
    (hanew : ∀ s', Spelled w.toList s' → ∃ o, Matches other.opening o ∧
      o ++ p.bridge = s' ++ (cl ++ v))

section

variable {other : Pass} (hother : other ∈ Pass.all) {name cl reference v : List Char} {p : Parts}
  (h : IsMention other name p)
include hother h

theorem after_of_closing {u e : List Char} (hends : ∀ c ∈ cl, Ends c) (hcl : cl = u ++ e)
    (hne : e ≠ []) (hfront : p.front = e ++ v) : After other cl reference v p := by
  obtain ⟨d, e, rfl⟩ := List.exists_cons_of_ne_nil hne
  rcases head_of_front hother h.opening h.bridge hfront with ⟨hloose, hnil⟩ | hd
  · obtain ⟨rfl, rfl⟩ := List.append_eq_nil_iff.1 hnil
    obtain ⟨u', d', hu', hopens⟩ := h.front_last hother
    rw [hfront] at hu'
    obtain rfl : d = d' := by simpa using congrArg List.getLast? hu'
    exact .quote hloose rfl hcl hopens
  · exact absurd (hends d (by simp [hcl])) hd.not_ends

theorem after_of_reference {r s : List Char} {k : Char} {z : List Char}
    (hreference : IsWord reference) (hcl : cl ++ v = k :: z) (hk : closesLoose k = true)
    (hr : reference = r ++ s) (hne : s ≠ []) (hfront : p.front = s ++ (cl ++ v)) :
    After other cl reference v p := by
  have hplain : PlainValue s := fun c hc => hreference.plain c (by simp [hr, hc])
  have hsign : ¬ EndsAttribute s := fun hend =>
    hreference.not_attribute (hend.of_suffix ⟨r, hr.symm⟩)
  rw [hcl] at hfront
  obtain ⟨hloose, hurl, hblank, w, hw, hs, hanew⟩ :=
    key_of_front hother h.opening h.bridge hfront hplain hne hsign hk
  rw [← hcl] at hanew
  exact .key hloose hurl hcl hblank hw hr hs hanew

end

section

variable {pass other : Pass} (hpass : pass ∈ Pass.all) (hother : other ∈ Pass.all)
  {name name' reference : List Char} (hreference : IsWord reference) (hname' : IsWord name')
  {p p' : Parts} (h : IsMention pass name p) (h' : IsMention other name' p')
  {a b : List Char}
include hpass hother hreference hname' h h'

omit hother hreference in
/-- A word that comes after the reference is not part of what ends the new mention. -/
theorem closing_of_after {w : List Char}
    (hfollow : (p.renew pass.style reference).follow = w ++ (p'.word ++ p'.follow)) :
    ∃ v, w = pass.style.closing p.closing ++ v ∧ p.rest = v ++ (p'.word ++ p'.follow) ∧
      ∃ k z, w = k :: z ∧ closesLoose k = true := by
  have hnew := h.renew hpass reference
  obtain ⟨c, t, ht, hc⟩ := (h'.isWord_word hname').not_ends
  have hnot : c ∉ pass.style.closing p.closing := fun hmem => hc (hnew.closing_ends hpass c hmem)
  rw [ht] at hfollow ⊢
  obtain ⟨v, hsplit, hrest⟩ := of_append_eq_append_mark hfollow hnot
  exact ⟨v, hsplit, hrest, hnew.follow_before hpass hc hfollow⟩

/-- A mention that comes after the new one after a renewal. -/
theorem after_renew {w : List Char}
    (hfront : b ++ p'.front = a ++ ((p.renew pass.style reference).front ++ (reference ++ w)))
    (hfollow : (p.renew pass.style reference).follow = w ++ (p'.word ++ p'.follow)) :
    ∃ v, p.rest = v ++ (p'.word ++ p'.follow) ∧
      b ++ p'.front = a ++ ((p.renew pass.style reference).mentionText ++ v) ∧
      After other (pass.style.closing p.closing) reference v p' := by
  have hnew := h.renew hpass reference
  obtain ⟨v, rfl, hrest, k, z, hclosing, hcloses⟩ := closing_of_after hpass hname' h h' hfollow
  have hnewText : (p.renew pass.style reference).mentionText =
      (p.renew pass.style reference).front ++ (reference ++ pass.style.closing p.closing) := by
    simp [Parts.front, Parts.mentionText, Parts.renew]
  have hsplit : b ++ p'.front = (a ++ (p.renew pass.style reference).mentionText) ++ v := by
    rw [hfront, hnewText]
    simp
  refine ⟨v, hrest, by rw [hsplit, List.append_assoc], ?_⟩
  -- what stands before the later mention starts after the new one, in what ends it, in the
  -- reference, or before the reference
  rcases List.append_eq_append_iff.1 hsplit with ⟨e, hbefore, hstart⟩ | ⟨u, -, hv⟩
  case inr => exact .later hv
  by_cases hne : e = []
  · refine .later (u := []) ?_
    rw [hstart, hne, List.nil_append, List.nil_append]
  rw [hnewText, ← List.append_assoc, ← List.append_assoc] at hbefore
  rcases List.append_eq_append_iff.1 hbefore with ⟨cl, -, hcl⟩ | ⟨e', hbefore', rfl⟩
  · exact after_of_closing hother h' (hnew.closing_ends hpass) hcl hne hstart
  rw [List.append_assoc] at hstart
  by_cases hne' : e' = []
  · rw [hne', List.nil_append] at hne hstart
    exact after_of_closing hother h' (hnew.closing_ends hpass) (List.nil_append _).symm hne hstart
  rcases List.append_eq_append_iff.1 hbefore' with ⟨r, -, hr⟩ | ⟨f, hfront', rfl⟩
  · exact after_of_reference hother h' hreference hclosing hcloses hr hne' hstart
  rcases List.eq_nil_or_concat f with rfl | ⟨f, d', rfl⟩
  · exact after_of_reference hother h' hreference hclosing hcloses (List.nil_append _).symm
      hreference.ne_nil hstart
  · -- the reference would be a word within what stands before the mention
    obtain ⟨u, d, hu, hd⟩ := hnew.front_last hpass
    rw [hu, List.concat_eq_append, ← List.append_assoc, ← List.append_assoc] at hfront'
    obtain rfl : d = d' := by simpa using List.append_inj_right' hfront' rfl
    rw [hclosing, List.concat_eq_append, List.append_assoc, List.append_assoc] at hstart
    exact absurd hstart (h'.front_ne hother hreference hd hcloses)

end

/-! ## Mentions after the new one -/

/-- A name and the reference that comes in its place. -/
structure Steady (name reference : List Char) : Prop where
  isWord : IsWord name
  startsName : StartsName name
  isWord_reference : IsWord reference
  /-- Where the reference ends in a keyword, so does the name. -/
  key : ∀ w ∈ keywords, ∀ r s, reference = r ++ s → Spelled w.toList s →
    ∃ n s', name = n ++ s' ∧ Spelled w.toList s'

/-- Where the reference ends in a keyword, so does what is read as the name. -/
theorem Steady.word_ends {pass : Pass} {name reference : List Char}
    (hsteady : Steady name reference) {p : Parts} (h : IsMention pass name p) {w : String}
    (hw : w ∈ keywords) {r s : List Char} (hr : reference = r ++ s) (hs : Spelled w.toList s) :
    ∃ n s', p.word = n ++ s' ∧ Spelled w.toList s' := by
  obtain ⟨n, s', hn, hs'⟩ := hsteady.key w hw r s hr hs
  have hspelled := h.spelled.symm
  rw [hn] at hspelled
  have htail : Spelled s' (p.name.drop n.length) :=
    Spelled.symm (List.forall₂_drop_append _ _ _ hspelled)
  refine ⟨p.lead ++ p.name.take n.length, _, ?_, hs'.trans htail⟩
  rw [List.append_assoc, List.take_append_drop, Parts.word]

/-- If a mention that is written anew ends in what opens one, so did the former one. -/
theorem IsMention.closing_last {pass : Pass} (hpass : pass ∈ Pass.all) {name : List Char}
    {p : Parts} (h : IsMention pass name p) {u : List Char} {d : Char}
    (hcl : pass.style.closing p.closing = u ++ [d]) (hd : Opens d) :
    ∃ u' d', p.closing = u' ++ [d'] ∧ Opens d' := by
  rcases style_cases hpass with ⟨hstyle, -⟩ | rfl | rfl
  · exact ⟨u, d, by rw [← hcl, hstyle, Style.closing], hd⟩
  · have hparen : ['"', ')'] = u ++ [d] := hcl
    obtain rfl : ')' = d := by simpa using congrArg List.getLast? hparen
    exact absurd hd (by decide)
  · obtain ⟨q, hq, hquote⟩ := matches_quote_iff.1 h.closing
    exact ⟨[], q, hq, Or.inl hquote⟩

/-- Where a blank follows the reference, what ends the mention is not written anew. -/
theorem closing_eq_of_blank {pass : Pass} (hpass : pass ∈ Pass.all) {cl v z : List Char} {k : Char}
    (hcl : pass.style.closing cl ++ v = k :: z) (hk : isBlank k = true) :
    pass.style.closing cl = cl := by
  rcases style_cases hpass with ⟨hstyle, -⟩ | rfl | rfl
  · rw [hstyle, Style.closing]
  all_goals
    obtain ⟨rfl, -⟩ := List.cons.inj hcl
    exact absurd hk (by decide)

section

variable {pass other : Pass} (hpass : pass ∈ Pass.all) (hother : other ∈ Pass.all)
  {name reference name' reference' : List Char} (hsteady : Steady name reference)
  (hname' : IsWord name') {p p' : Parts} (h : IsMention pass name p)
  (h' : IsMention other name' p') {a b : List Char}
include hpass hother hsteady hname' h h'

/-- A mention that comes after the new one after a renewal was one before, with the same name and
the same end. -/
theorem exists_mention_of_after {w : List Char}
    (hfront : b ++ p'.front = a ++ ((p.renew pass.style reference).front ++ (reference ++ w)))
    (hfollow : (p.renew pass.style reference).follow = w ++ (p'.word ++ p'.follow)) :
    ∃ b' o, IsMention other name' { p' with opening := o } ∧
      a ++ p.text = b' ++ Parts.text { p' with opening := o } := by
  obtain ⟨v, hrest, -, hafter⟩ :=
    after_renew hpass hother hsteady.isWord_reference hname' h h' hfront hfollow
  have htext : a ++ p.text =
      a ++ (p.front ++ (p.word ++ (p.closing ++ (v ++ (p'.word ++ p'.follow))))) := by
    rw [Parts.text_eq, Parts.follow, hrest]
  -- all that is left is an opening that the text before the word ends in
  suffices hopens : ∃ b' o, Matches other.opening o ∧
      p.word ++ (p.closing ++ v) = b' ++ (o ++ p'.bridge) by
    obtain ⟨b', o, ho, hsplit⟩ := hopens
    refine ⟨a ++ (p.front ++ b'), o, ⟨⟨ho, h'.bridge, h'.lead, h'.name, h'.closing⟩, h'.ahead⟩, ?_⟩
    have hassoc : p.word ++ (p.closing ++ (v ++ (p'.word ++ p'.follow))) =
        (p.word ++ (p.closing ++ v)) ++ (p'.word ++ p'.follow) := by simp
    rw [htext, hassoc, hsplit]
    simp [Parts.text, Parts.word, Parts.follow]
  cases hafter with
  | @later u hv =>
    exact ⟨p.word ++ (p.closing ++ u), p'.opening, h'.opening, by rw [hv]; simp [Parts.front]⟩
  | @quote u d hloose hv hcl hd =>
    -- the former mention ended in a delimiter of its own, which may be another quote
    obtain ⟨u', d', hclosing, hd'⟩ := h.closing_last hpass hcl hd
    subst hloose
    have hbridge : p'.bridge = [] := matches_empty_iff.1 h'.bridge
    refine ⟨p.word ++ u', [d'], .one ?_, ?_⟩
    · simpa [Opens, IsQuote, or_assoc] using hd'
    · rw [hv, hclosing, hbridge]
      simp
  | @key k z w r s hloose hurl hcl hk hw hr hs hanew =>
    -- the name ended in the keyword as the reference does, maybe in another letter case
    rw [closing_eq_of_blank hpass hcl hk] at hanew
    obtain ⟨n, s', hword, hs'⟩ := hsteady.word_ends h hw hr hs
    obtain ⟨o, ho, hfront⟩ := hanew s' hs'
    refine ⟨n, o, ho, ?_⟩
    rw [hfront, hword, List.append_assoc]

end

end SiteFolders.Reference
