import SiteFolders.Proofs.Reference.Current
import SiteFolders.Proofs.Reference.Tokens

/-!
# The gaps around what a script includes

The passes for what a script includes are the only ones that write delimiters anew: the gap between
the keyword and the file, and the start of the gap behind the file (`Recast`). Such a place is seen
in the gaps alone, and no two of them share a gap (`Encloses.eq_of_shared`), so it does not matter
how often or for which of the passes it is written anew (`Recast.trans`).
-/

namespace SiteFolders.Reference

open SiteFolders.Text Regex

/-- The passes for what a script includes. -/
def Pass.IsInclude (pass : Pass) : Prop := pass = .phpIncludeCall ∨ pass = .phpIncludeStatement

namespace Pass.IsInclude

variable {pass : Pass} (hpass : pass.IsInclude)
include hpass

theorem mem_all : pass ∈ Pass.all := by
  rcases hpass with rfl | rfl <;> simp [Pass.all]

theorem opening_eq : pass.opening = phpKeyword := by
  rcases hpass with rfl | rfl <;> rfl

/-- What is put in front of a reference does not depend on what stood there. -/
theorem style_bridge_congr (br br' : List Char) : pass.style.bridge br = pass.style.bridge br' := by
  rcases hpass with rfl | rfl <;> rfl

theorem style_closing_congr (cl cl' : List Char) :
    pass.style.closing cl = pass.style.closing cl' := by
  rcases hpass with rfl | rfl <;> rfl

end Pass.IsInclude

/-! ## What stands around the file -/

section

variable {pass other : Pass} (hpass : pass.IsInclude) {br cl rest : List Char}

include hpass

theorem isGap_bridge (h : Matches pass.bridge br) : IsGap br :=
  fun c hc => isDelimiter_iff.2 (Or.inl (opens_scriptBridge hpass h c hc))

theorem isGap_closing (h : Matches pass.closing cl) : IsGap cl := by
  have hquote : ∀ {q}, IsQuote q → isDelimiter q = true :=
    fun hq => isDelimiter_iff.2 (Or.inl (Or.inl hq))
  rcases hpass with rfl | rfl
  · obtain ⟨q, b, rfl, hq, hb⟩ := of_matches_callClosing h
    refine isGap_cons.2 ⟨hquote hq, fun c hc => ?_⟩
    rcases List.mem_append.1 hc with hc | hc
    · exact isDelimiter_iff.2 (Or.inl (hb.opens c hc))
    · rw [List.mem_singleton.1 hc]
      rfl
  · obtain ⟨q, rfl, hq⟩ := matches_quote_iff.1 h
    exact isGap_cons.2 ⟨hquote hq, .nil⟩

theorem exists_cons_of_closing (h : Matches pass.closing cl) : ∃ q t, cl = q :: t ∧ IsQuote q := by
  rcases hpass with rfl | rfl
  · obtain ⟨q, b, rfl, hq, -⟩ := of_matches_callClosing h
    exact ⟨q, _, rfl, hq⟩
  · obtain ⟨q, rfl, hq⟩ := matches_quote_iff.1 h
    exact ⟨q, [], rfl, hq⟩

/-- Only a call has a parenthesis in front of the file. -/
theorem paren_mem_iff (h : Matches pass.bridge br) : '(' ∈ br ↔ pass = .phpIncludeCall := by
  rcases hpass with rfl | rfl
  · obtain ⟨b, b', q, rfl, -⟩ := of_matches_callBridge h
    simp
  · obtain ⟨b, q, rfl, -, hb, hq⟩ := of_matches_statementBridge h
    constructor
    · intro hmem
      rcases List.mem_append.1 hmem with hmem | hmem
      · exact absurd (hb '(' hmem) (by decide)
      · obtain rfl := List.mem_singleton.1 hmem
        exact absurd hq (by decide)
    · intro hsame
      exact absurd (congrArg Pass.style hsame) (by decide)

theorem exists_cons_of_bridge (h : Matches pass.bridge br) : ∃ c t, br = c :: t ∧ ¬ IsQuote c := by
  have hblank : ∀ {c b}, AllBlank (c :: b) → ¬ IsQuote c := by
    intro c b hb hq
    have hc := hb c (by simp)
    simp [hq.not_isBlank] at hc
  rcases hpass with rfl | rfl
  · obtain ⟨b, b', q, rfl, hb, -⟩ := of_matches_callBridge h
    cases b with
    | nil => exact ⟨'(', _, rfl, by decide⟩
    | cons c b => exact ⟨c, _, rfl, hblank hb⟩
  · obtain ⟨b, q, rfl, hne, hb, -⟩ := of_matches_statementBridge h
    obtain ⟨c, b, rfl⟩ := List.exists_cons_of_ne_nil hne
    exact ⟨c, _, rfl, hblank hb⟩

/-- Of what is written anew, the pass takes all and nothing else for the end of a mention. -/
theorem eq_of_style_closing {cl' rest' : List Char} (h : Matches pass.closing cl')
    (heq : pass.style.closing cl ++ rest = cl' ++ rest') :
    cl' = pass.style.closing cl ∧ rest' = rest := by
  rcases hpass with rfl | rfl
  · obtain ⟨q, b, rfl, -, hb⟩ := of_matches_callClosing h
    have hsplit : '"' :: ')' :: rest = q :: ((b ++ [')']) ++ rest') := heq
    obtain ⟨rfl, hrest⟩ := List.cons.inj hsplit
    -- a blank would have to be the parenthesis that is written
    cases b with
    | nil => exact ⟨rfl, (List.cons.inj hrest).2.symm⟩
    | cons c b =>
      obtain ⟨rfl, -⟩ := List.cons.inj hrest
      exact absurd (hb ')' (by simp)) (by decide)
  · obtain ⟨q, rfl, -⟩ := matches_quote_iff.1 h
    have hsplit : '"' :: rest = q :: rest' := heq
    obtain ⟨rfl, hrest⟩ := List.cons.inj hsplit
    exact ⟨rfl, hrest.symm⟩

variable (hother : other.IsInclude)
include hother

/-- What stands in front of the file tells the two passes apart. -/
theorem eq_of_bridge (h : Matches pass.bridge br) (h' : Matches other.bridge br) : pass = other := by
  have hcalls : pass = .phpIncludeCall ↔ other = .phpIncludeCall :=
    (paren_mem_iff hpass h).symm.trans (paren_mem_iff hother h')
  rcases hpass with rfl | rfl
  · exact (hcalls.1 rfl).symm
  · rcases hother with rfl | rfl
    · exact hcalls.2 rfl
    · rfl

theorem bridge_ne_closing (h : Matches pass.bridge br) (h' : Matches other.closing cl) :
    br ≠ cl ++ rest := by
  obtain ⟨c, t, rfl, hc⟩ := exists_cons_of_bridge hpass h
  obtain ⟨q, u, rfl, hq⟩ := exists_cons_of_closing hother h'
  intro heq
  obtain ⟨rfl, -⟩ := List.cons.inj heq
  exact hc hq

end

/-! ## Gaps in a text -/

/-- The gaps behind token `i` and behind the next one are those around a file that a script includes:
the first one stands between keyword and file, and the other one starts with what ends the mention. -/
structure Encloses (pass : Pass) (text : List Char) (i : ℕ) : Prop where
  bridge : ∃ br, (gaps text)[i + 1]? = some br ∧ Matches pass.bridge br
  closing : ∃ cl rest, (gaps text)[i + 2]? = some (cl ++ rest) ∧ Matches pass.closing cl

/-- In the second text, these gaps are written anew. -/
structure Recast (pass : Pass) (text text' : List Char) (i : ℕ) : Prop where
  bridge : ∃ br, (gaps text)[i + 1]? = some br ∧ Matches pass.bridge br ∧
    (gaps text')[i + 1]? = some (pass.style.bridge br)
  closing : ∃ cl rest, (gaps text)[i + 2]? = some (cl ++ rest) ∧ Matches pass.closing cl ∧
    (gaps text')[i + 2]? = some (pass.style.closing cl ++ rest)

section

variable {pass other : Pass} {text text' text'' : List Char} {i j n : ℕ}

/-- Two places that share a gap are the same, for the same pass. -/
theorem Encloses.eq_of_shared (hpass : pass.IsInclude) (hother : other.IsInclude)
    (h : Encloses pass text i) (h' : Encloses other text j) (hn : n = i + 1 ∨ n = i + 2)
    (hn' : n = j + 1 ∨ n = j + 2) : i = j ∧ pass = other := by
  obtain ⟨br, hbr, hbridge⟩ := h.bridge
  obtain ⟨cl, rest, hcl, hclosing⟩ := h.closing
  obtain ⟨br', hbr', hbridge'⟩ := h'.bridge
  obtain ⟨cl', rest', hcl', hclosing'⟩ := h'.closing
  -- side by side, the gap would be the end of one mention and stand in front of the other file
  rcases Nat.lt_trichotomy i j with hlt | rfl | hlt
  · obtain rfl : j = i + 1 := by omega
    rw [hbr', Option.some.injEq] at hcl
    exact absurd hcl (bridge_ne_closing hother hpass hbridge' hclosing)
  · rw [hbr, Option.some.injEq] at hbr'
    subst hbr'
    exact ⟨rfl, eq_of_bridge hpass hother hbridge hbridge'⟩
  · obtain rfl : i = j + 1 := by omega
    rw [hbr, Option.some.injEq] at hcl'
    exact absurd hcl' (bridge_ne_closing hpass hother hbridge hclosing')

theorem Recast.encloses (h : Recast pass text text' i) : Encloses pass text i := by
  obtain ⟨br, hbr, hbridge, -⟩ := h.bridge
  obtain ⟨cl, rest, hcl, hclosing, -⟩ := h.closing
  exact ⟨⟨br, hbr, hbridge⟩, cl, rest, hcl, hclosing⟩

theorem Recast.encloses_anew (h : Recast pass text text' i) (hpass : pass.IsInclude) :
    Encloses pass text' i := by
  obtain ⟨br, -, hbridge, hbr⟩ := h.bridge
  obtain ⟨cl, rest, -, hclosing, hcl⟩ := h.closing
  exact ⟨⟨_, hbr, matches_style_bridge hpass.mem_all hbridge⟩, _, rest, hcl,
    matches_style_closing hpass.mem_all hclosing⟩

/-- The gaps around a file are the same in two texts. -/
def SameAround (text text' : List Char) (i : ℕ) : Prop :=
  (gaps text')[i + 1]? = (gaps text)[i + 1]? ∧ (gaps text')[i + 2]? = (gaps text)[i + 2]?

theorem Recast.trans_same (h : Recast pass text text' i) (hsame : SameAround text' text'' i) :
    Recast pass text text'' i := by
  obtain ⟨br, hbr, hbridge, hbr'⟩ := h.bridge
  obtain ⟨cl, rest, hcl, hclosing, hcl'⟩ := h.closing
  exact ⟨⟨br, hbr, hbridge, hsame.1.trans hbr'⟩, cl, rest, hcl, hclosing, hsame.2.trans hcl'⟩

theorem SameAround.trans_recast (hsame : SameAround text text' i) (h : Recast pass text' text'' i) :
    Recast pass text text'' i := by
  obtain ⟨br, hbr, hbridge, hbr'⟩ := h.bridge
  obtain ⟨cl, rest, hcl, hclosing, hcl'⟩ := h.closing
  exact ⟨⟨br, hsame.1 ▸ hbr, hbridge, hbr'⟩, cl, rest, hsame.2 ▸ hcl, hclosing, hcl'⟩

/-- What is written anew twice is what is written anew once. -/
theorem Recast.trans (hpass : pass.IsInclude) (h : Recast pass text text' i)
    (h' : Recast pass text' text'' i) : Recast pass text text'' i := by
  obtain ⟨br, hbr, hbridge, -⟩ := h.bridge
  obtain ⟨cl, rest, hcl, hclosing, hanew⟩ := h.closing
  obtain ⟨br', -, -, hbr'⟩ := h'.bridge
  obtain ⟨cl', rest', hcl', hclosing', hanew'⟩ := h'.closing
  rw [hanew, Option.some.injEq] at hcl'
  obtain ⟨-, rfl⟩ := eq_of_style_closing hpass hclosing' hcl'
  refine ⟨⟨br, hbr, hbridge, ?_⟩, cl, rest', hcl, hclosing, ?_⟩
  · rw [hpass.style_bridge_congr br br']
    exact hbr'
  · rw [hpass.style_closing_congr cl cl']
    exact hanew'

end

/-! ## One mention -/

/-- The name of a mention and its leading segments are a token. -/
theorem IsMention.cut {pass : Pass} (hpass : pass ∈ Pass.all) {name : List Char} {p : Parts}
    (h : IsMention pass name p) (hplain : PlainValue name) (hne : name ≠ []) (a : List Char) :
    tokens (a ++ p.text) = tokens (a ++ p.front) ++ p.word :: tokens p.follow ∧
      gaps (a ++ p.text) = gaps (a ++ p.front) ++ gaps p.follow := by
  have hat := h.wordAt_of_plain hpass hplain hne a
  have htext : a ++ p.text = (a ++ p.front) ++ (p.word ++ p.follow) := by
    rw [Parts.text_eq, List.append_assoc]
  rw [htext]
  exact ⟨hat.tokens_eq, hat.gaps_eq⟩

/-- Where a script includes a file, nothing but gaps stands between the keyword and the mention, and
behind the mention. -/
theorem IsMention.cut_include {pass : Pass} (hpass : pass.IsInclude) {name : List Char} {p : Parts}
    (h : IsMention pass name p) (hplain : PlainValue name) (hne : name ≠ [])
    {a t g : List Char} {ts gs gs' : List (List Char)}
    (htokens : tokens (a ++ p.opening) = ts ++ [t]) (hgaps : gaps (a ++ p.opening) = gs ++ [[]])
    (hrest : gaps p.rest = g :: gs') :
    tokens (a ++ p.text) = ts ++ t :: p.word :: tokens p.rest ∧
      gaps (a ++ p.text) = gs ++ p.bridge :: (p.closing ++ g) :: gs' := by
  have hbridge := isGap_bridge hpass h.bridge
  have hclosing := isGap_closing hpass h.closing
  obtain ⟨hcut, hcutGaps⟩ := h.cut hpass.mem_all hplain hne a
  have hfront : a ++ p.front = (a ++ p.opening) ++ p.bridge := by
    rw [Parts.front, List.append_assoc]
  rw [hcut, hcutGaps, hfront, tokens_append_gap hbridge, gaps_append_gap hbridge hgaps, htokens,
    Parts.follow, tokens_gap_append hclosing, gaps_gap_append hclosing, hrest]
  simp

/-- A mention that is written anew: the keyword stays, and with it all gaps but the two around the
file. -/
theorem IsMention.recast {pass : Pass} (hpass : pass.IsInclude) {name reference : List Char}
    {p : Parts} (h : IsMention pass name p) (hplain : PlainValue name) (hne : name ≠ [])
    (hplain' : PlainValue reference) (hne' : reference ≠ []) (a : List Char) :
    ∃ ts t rest, p.opening <:+ t ∧ tokens (a ++ p.text) = ts ++ t :: p.word :: rest ∧
      tokens (a ++ (p.renew pass.style reference).text) = ts ++ t :: reference :: rest ∧
      Recast pass (a ++ p.text) (a ++ (p.renew pass.style reference).text) ts.length ∧
      ∀ i, (gaps (a ++ (p.renew pass.style reference).text))[i]? = (gaps (a ++ p.text))[i]? ∨
        i = ts.length + 1 ∨ i = ts.length + 2 := by
  obtain ⟨w, hw, hopening⟩ := matches_phpKeyword_iff.1 (hpass.opening_eq ▸ h.opening)
  have hmem : w ∈ keywords := List.mem_append_right _ hw
  have hkey : PlainValue p.opening := plainValue_iff.2 fun c hc =>
    (isKeyChar_of_keyword hmem hopening c hc).not_delimits
  -- the keyword ends the last token in front of the mention, as it holds no delimiter
  obtain ⟨⟨ts, t, htokens, hsuffix⟩, gs, hgaps⟩ :=
    exists_last_token hkey (key_ne_nil hmem hopening) (List.suffix_append a p.opening)
  obtain ⟨g, gs', hrest⟩ := List.exists_cons_of_ne_nil (gaps_ne_nil p.rest)
  have hnew := h.renew hpass.mem_all reference
  have hlength : gs.length = ts.length + 1 := by
    have hlen := length_gaps (a ++ p.opening)
    rw [htokens, hgaps] at hlen
    simpa using hlen
  obtain ⟨hbefore, hgapsBefore⟩ := h.cut_include hpass hplain hne htokens hgaps hrest
  obtain ⟨hafter, hgapsAfter⟩ := hnew.cut_include hpass hplain' hne' htokens hgaps hrest
  refine ⟨ts, t, tokens p.rest, hsuffix, hbefore, hafter, ⟨?_, ?_⟩, fun i => ?_⟩
  · refine ⟨p.bridge, ?_, h.bridge, ?_⟩
    · rw [hgapsBefore, ← hlength]
      simp
    · rw [hgapsAfter, ← hlength]
      simp [Parts.renew]
  · refine ⟨p.closing, g, ?_, h.closing, ?_⟩
    · rw [hgapsBefore, ← Nat.add_assoc ts.length 1 1, ← hlength]
      simp
    · rw [hgapsAfter, ← Nat.add_assoc ts.length 1 1, ← hlength]
      simp [Parts.renew]
  · rw [hgapsBefore, hgapsAfter]
    grind

end SiteFolders.Reference
