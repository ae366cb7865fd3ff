import SiteFolders.Proofs.Reference.Renewal

/-!
# Mentions that are current

A mention is current if it is written as it would be written anew. A text whose mentions all are
stays so where a mention for another pass or file is written anew (`AllCurrent.renew`), as long as
no other name is read in the reference; and where the mentions of one pass are written anew one
after the other, the text is current up to the last one of them (`CurrentUpTo.renew`).
-/

namespace SiteFolders.Reference

open SiteFolders.Text Regex

/-! ## Mentions that are current -/

/-- The mention is written as it would be written anew. -/
structure Parts.Current (p : Parts) (style : Style) (reference : List Char) : Prop where
  bridge : style.bridge p.bridge = p.bridge
  word : p.word = reference
  closing : style.closing p.closing = p.closing

theorem opens_scriptBridge {pass : Pass} {br : List Char}
    (hpass : pass = .phpIncludeCall ∨ pass = .phpIncludeStatement) (h : Matches pass.bridge br) :
    ∀ c ∈ br, Opens c := by
  rcases hpass with rfl | rfl
  · obtain ⟨b, b', q, rfl, hb, hb', hq⟩ := of_matches_callBridge h
    exact opens_append hb.opens (opens_paren (opens_append hb'.opens (opens_quote hq)))
  · obtain ⟨b, q, rfl, -, hb, hq⟩ := of_matches_statementBridge h
    exact opens_append hb.opens (opens_quote hq)

theorem Parts.current_of_delimited {p : Parts} {style : Style} {reference : List Char}
    (hstyle : style = .delimited) (hword : p.word = reference) : p.Current style reference := by
  subst hstyle
  exact ⟨rfl, hword, rfl⟩

theorem current_of_call {name reference : List Char} {p : Parts}
    (h : IsMention .phpIncludeCall name p) (hbridge : p.bridge = ['(', '"'])
    (hword : p.word = reference) {z : List Char} (hfollow : p.follow = '"' :: ')' :: z) :
    p.Current Pass.phpIncludeCall.style reference := by
  refine ⟨hbridge.symm, hword, ?_⟩
  obtain ⟨q, b, hcl, hq, hb⟩ := of_matches_callClosing h.closing
  rw [Parts.follow, hcl] at hfollow
  obtain ⟨rfl, hrest⟩ := List.cons.inj hfollow
  cases b with
  | nil => exact hcl.symm
  | cons e b =>
    obtain ⟨rfl, -⟩ := List.cons.inj hrest
    exact absurd (hb ')' (by simp)) (by decide)

theorem current_of_statement {name reference : List Char} {p : Parts}
    (h : IsMention .phpIncludeStatement name p) (hbridge : p.bridge = [' ', '"'])
    (hword : p.word = reference) {z : List Char} (hfollow : p.follow = '"' :: z) :
    p.Current Pass.phpIncludeStatement.style reference := by
  refine ⟨hbridge.symm, hword, ?_⟩
  obtain ⟨q, hcl, hq⟩ := matches_quote_iff.1 h.closing
  rw [Parts.follow, hcl] at hfollow
  obtain ⟨rfl, -⟩ := List.cons.inj hfollow
  exact hcl.symm

/-- Where a script reads a file, what stands between the keyword and the reference are the
delimiters before it. -/
theorem bridge_eq_of_front {pass other : Pass} {name name' : List Char} {p p' : Parts}
    (hpass : pass.opening = phpKeyword) (hother : other.opening = phpKeyword)
    (h : IsMention pass name p) (h' : IsMention other name' p') {a b br : List Char}
    (hbr : ∀ c ∈ br, Opens c) (hbr' : ∀ c ∈ p'.bridge, Opens c)
    (heq : a ++ (p.opening ++ br) = b ++ (p'.opening ++ p'.bridge)) : br = p'.bridge := by
  obtain ⟨o, c, ho, hc⟩ := opening_last hpass h.opening
  obtain ⟨o', c', ho', hc'⟩ := opening_last hother h'.opening
  have hsplit : (a ++ o ++ [c]) ++ br = (b ++ o' ++ [c']) ++ p'.bridge := by
    simpa [ho, ho'] using heq
  -- a difference would end in a character of a keyword that opens a mention
  have hnil : ∀ {u u' s t e : List Char} {k l : Char}, IsKeyChar k → (∀ x ∈ s, Opens x) →
      u ++ [k] = u' ++ [l] ++ e → s = e ++ t → e = [] := by
    intro u u' s t e k l hk hs hu hst
    rcases List.eq_nil_or_concat e with rfl | ⟨e, x, rfl⟩
    · rfl
    · rw [List.concat_eq_append, ← List.append_assoc] at hu
      obtain rfl : k = x := by simpa using List.append_inj_right' hu rfl
      exact absurd (Or.inl (hs k (by simp [hst]))) hk.not_delimits
  rcases List.append_eq_append_iff.1 hsplit with ⟨e, hu, hs⟩ | ⟨e, hu, hs⟩
  · obtain rfl := hnil hc' hbr hu hs
    exact hs
  · obtain rfl := hnil hc hbr' hu hs
    exact hs.symm

/-- In a script, a mention in the place of the new one is current. -/
theorem current_of_same {pass other : Pass} (hpass : pass ∈ Pass.all)
    (hscript : pass = .phpIncludeCall ∨ pass = .phpIncludeStatement)
    (hscript' : other = .phpIncludeCall ∨ other = .phpIncludeStatement)
    {name name' reference : List Char} {p p' : Parts} (h : IsMention pass name p)
    (h' : IsMention other name' p') {a b : List Char}
    (hfront : a ++ (p.renew pass.style reference).front = b ++ p'.front)
    (hword : p'.word = reference)
    (hfollow : p'.follow = (p.renew pass.style reference).follow) :
    p'.Current other.style reference := by
  have hkeyword : ∀ {x : Pass}, x = .phpIncludeCall ∨ x = .phpIncludeStatement →
      x.opening = phpKeyword := by
    rintro x (rfl | rfl) <;> rfl
  have hbridge : pass.style.bridge p.bridge = p'.bridge :=
    bridge_eq_of_front (hkeyword hscript) (hkeyword hscript') h h' (h.opens_bridge hpass)
      (opens_scriptBridge hscript' h'.bridge) hfront
  rcases hscript with rfl | rfl <;> rcases hscript' with rfl | rfl
  · exact current_of_call h' hbridge.symm hword hfollow
  · -- a statement has a blank where the call has its parenthesis
    obtain ⟨b, q, hsplit, hne, hb, -⟩ := of_matches_statementBridge h'.bridge
    obtain ⟨e, b, rfl⟩ := List.exists_cons_of_ne_nil hne
    rw [← hbridge] at hsplit
    obtain ⟨rfl, -⟩ := List.cons.inj hsplit
    exact absurd (hb '(' (by simp)) (by decide)
  · -- a call has a parenthesis there
    obtain ⟨b, b', q, hsplit, -⟩ := of_matches_callBridge h'.bridge
    have hmem : '(' ∈ p'.bridge := by simp [hsplit]
    rw [← hbridge] at hmem
    simp [Pass.phpIncludeStatement, Style.bridge] at hmem
  · exact current_of_statement h' hbridge.symm hword hfollow

/-! ## Texts that are current -/

/-- All mentions that start in the first `n` characters of a text are current. -/
def CurrentUpTo (n : Nat) (pass : Pass) (name reference text : List Char) : Prop :=
  ∀ before p, text = before ++ p.text → before.length < n → IsMention pass name p →
    p.Current pass.style reference

/-- All mentions in a text are current. -/
def AllCurrent (pass : Pass) (name reference text : List Char) : Prop :=
  ∀ before p, text = before ++ p.text → IsMention pass name p → p.Current pass.style reference

section

variable {pass : Pass} (hpass : pass ∈ Pass.all) {name reference : List Char}
  (hname : IsWord name) (hreference : IsWord reference) {p : Parts} (h : IsMention pass name p)
  {a : List Char}
include hpass hname hreference h

/-- After a renewal the text is current up to the end of the new mention, if it was current before
it. -/
theorem CurrentUpTo.renew
    (hall : CurrentUpTo a.length pass name reference (a ++ p.text)) :
    CurrentUpTo (a ++ (p.renew pass.style reference).mentionText).length pass name reference
      (a ++ (p.renew pass.style reference).text) := by
  intro b p' heq hlt h'
  rcases renew_cases hpass hpass hreference hname h h' heq with ⟨hfront, hword, hfollow⟩ |
    ⟨w, hfront, hfollow⟩ | ⟨w, hfront, hfollow⟩
  · rcases style_cases hpass with ⟨hstyle, -⟩ | hscript
    · exact Parts.current_of_delimited hstyle hword
    · exact current_of_same hpass hscript hscript h h' hfront hword hfollow
  · -- it starts in the part of the text that was current
    have hstart := start_of_before hpass hpass hreference hname h h' hfront hfollow
    obtain ⟨rest, hmention, htext⟩ :=
      exists_mention_of_before hpass hpass hreference hname h h' hfront hfollow
    have hcurrent := hall b _ htext hstart hmention
    exact ⟨hcurrent.bridge, hcurrent.word, hcurrent.closing⟩
  · obtain ⟨v, -, hplace, hafter⟩ := after_renew hpass hpass hreference hname h h' hfront hfollow
    cases hafter with
    | @later u hv =>
      -- it starts after the end of the new mention
      have hlen := congrArg List.length hplace
      rw [hv] at hlen
      simp only [List.length_append] at hlen hlt
      omega
    | @quote u d hloose hv hcl hd =>
      -- a loose mention ends with the name, so there is no quote to share
      have hclosing := (h.renew hpass reference).closing
      have hempty : pass.closing = .empty := by
        rw [hloose]
        rfl
      rw [hempty, matches_empty_iff] at hclosing
      have hnil : u ++ [d] = [] := hcl.symm.trans hclosing
      simp at hnil
    | key hloose hurl hcl hk hw hr hs hanew =>
      -- a blank would have to follow the reference, but mentions of this pass have a quote there
      rcases closing_cases hpass (h.renew hpass reference).closing with ⟨hl, -⟩ | ⟨hu, -⟩ |
        ⟨-, q, s, hq, hquote, -⟩
      · exact absurd hl hloose
      · exact absurd hu hurl
      · have hclosing : pass.style.closing p.closing = q :: s := hq
        rw [hclosing] at hcl
        obtain ⟨rfl, -⟩ := List.cons.inj hcl
        simp [hquote.not_isBlank] at hk

end

/-- Where a mention is written between its own delimiters, a mention of a pass that does not ask for
letter case that is found in its place was found there before. -/
theorem exists_mention_of_same {pass other : Pass} (hstyle : pass.style = .delimited)
    (hfold : other.ignoreCase = true) {name reference : List Char} {p p' : Parts}
    (h : IsMention pass name p) (h' : IsMention other name p') {a b : List Char}
    (hfront : a ++ (p.renew pass.style reference).front = b ++ p'.front)
    (hfollow : p'.follow = (p.renew pass.style reference).follow) :
    IsMention other name { p' with lead := p.lead, name := p.name } ∧
      a ++ p.text = b ++ Parts.text { p' with lead := p.lead, name := p.name } := by
  constructor
  · refine ⟨⟨h'.opening, h'.bridge, h.lead, ?_, h'.closing⟩, h'.ahead⟩
    rw [Pass.nameRegex, hfold, if_pos rfl, matches_literal_iff]
    exact h.spelled
  · rw [hstyle] at hfront hfollow
    have hfront' : a ++ p.front = b ++ p'.front := hfront
    have hfollow' : p'.follow = p.follow := hfollow
    have hsplit : a ++ p.text = (a ++ p.front) ++ (p.word ++ p.follow) := by
      rw [Parts.text_eq, List.append_assoc]
    rw [hsplit, hfront', ← hfollow']
    simp [Parts.text, Parts.front, Parts.word, Parts.follow]

/-- A renewal leaves texts current that are, as long as no other name is read in the reference. -/
theorem AllCurrent.renew {pass other : Pass} (hpass : pass ∈ Pass.all) (hother : other ∈ Pass.all)
    {name reference name' reference' : List Char} (hsteady : Steady name reference)
    (hname' : IsWord name') (hsame : (∃ ld m, reference = ld ++ m ∧ Matches lead ld ∧
      Spelled name' m) → name' = name ∧ reference' = reference)
    {p : Parts} (h : IsMention pass name p) {a : List Char}
    (hall : AllCurrent other name' reference' (a ++ p.text)) :
    AllCurrent other name' reference' (a ++ (p.renew pass.style reference).text) := by
  intro b p' heq h'
  rcases renew_cases hpass hother hsteady.isWord_reference hname' h h' heq with
    ⟨hfront, hword, hfollow⟩ | ⟨w, hfront, hfollow⟩ | ⟨w, hfront, hfollow⟩
  · obtain ⟨rfl, rfl⟩ := hsame ⟨p'.lead, p'.name, hword.symm, h'.lead, h'.spelled⟩
    rcases style_cases hother with ⟨hstyle, -⟩ | hscript'
    · exact Parts.current_of_delimited hstyle hword
    · rcases style_cases hpass with ⟨hstyle, -⟩ | hscript
      · -- the mention was one in a script before, and so it was current but for its name
        have hfold : other.ignoreCase = true := by rcases hscript' with rfl | rfl <;> rfl
        obtain ⟨hmention, htext⟩ := exists_mention_of_same hstyle hfold h h' hfront hfollow
        have hcurrent := hall b _ htext hmention
        exact ⟨hcurrent.bridge, hword, hcurrent.closing⟩
      · exact current_of_same hpass hscript hscript' h h' hfront hword hfollow
  · obtain ⟨rest, hmention, htext⟩ :=
      exists_mention_of_before hpass hother hsteady.isWord_reference hname' h h' hfront hfollow
    have hcurrent := hall b _ htext hmention
    exact ⟨hcurrent.bridge, hcurrent.word, hcurrent.closing⟩
  · obtain ⟨b', o, hmention, htext⟩ :=
      exists_mention_of_after hpass hother hsteady hname' h h' hfront hfollow
    have hcurrent := hall b' _ htext hmention
    exact ⟨hcurrent.bridge, hcurrent.word, hcurrent.closing⟩

end SiteFolders.Reference