import SiteFolders.Proofs.Reference.Idempotence
import SiteFolders.Proofs.Reference.ShortNames
import SiteFolders.Proofs.Reference.Tokens

/-!
# What the loose pass replaces

The loose pass takes one delimiter and a token, and only looks at the delimiter after it, which the
next mention can start with. So it decides about every token on its own: a token is replaced if it
is the name after leading segments and what stands right around it opens and closes a mention
(`LooseMention`), and nothing else is changed (`replace?_loose`).
-/

namespace SiteFolders.Reference

open SiteFolders.Text Regex

/-- A token between two gaps is a loose mention of a name in exact letter case. -/
structure LooseMention (name before token after : List Char) : Prop where
  opens : ∃ u d, before = u ++ [d] ∧ Opens d
  closes : ∃ k v, after = k :: v ∧ closesLoose k = true
  named : ∃ ld, Matches lead ld ∧ token = ld ++ name

instance (s : List Char) : Decidable (Matches lead s) :=
  decidable_of_iff (s.length ∈ lead.lengths none s) <| by
    rw [mem_lengths_iff (by decide)]
    constructor
    · rintro ⟨u, v, rfl, hlen, hu⟩
      obtain rfl : v = [] := by simpa using hlen
      rwa [List.append_nil]
    · intro h
      exact ⟨s, [], by simp, rfl, h⟩

theorem looseMention_iff {name before token after : List Char} :
    LooseMention name before token after ↔ before.getLast?.any (fun c => decide (Opens c)) = true ∧
      after.head?.any closesLoose = true ∧ name <:+ token ∧
      Matches lead (token.take (token.length - name.length)) := by
  constructor
  · rintro ⟨⟨u, d, rfl, hd⟩, ⟨k, v, rfl, hk⟩, ld, hld, rfl⟩
    exact ⟨by simpa using hd, by simpa using hk, List.suffix_append ld name, by simpa using hld⟩
  · rintro ⟨hbefore, hafter, ⟨ld, rfl⟩, hld⟩
    refine ⟨?_, ?_, ld, by simpa using hld, rfl⟩
    · obtain ⟨d, hlast, hd⟩ := (Option.any_eq_true _ _).1 hbefore
      obtain ⟨u, rfl⟩ := List.getLast?_eq_some_iff.1 hlast
      exact ⟨u, d, rfl, by simpa using hd⟩
    · cases after with
      | nil => simp at hafter
      | cons k v => exact ⟨k, v, rfl, by simpa using hafter⟩

instance (name before token after : List Char) : Decidable (LooseMention name before token after) :=
  decidable_of_iff' _ looseMention_iff

/-- What the loose pass writes for a token between two gaps. -/
def writeLoose (name reference before token after : List Char) : List Char :=
  if LooseMention name before token after then reference else token

/-! ## Where loose mentions stand -/

theorem eq_of_nameRegex_loose {name s : List Char} (h : Matches (Pass.loose.nameRegex name) s) :
    s = name := by
  rw [Pass.nameRegex, matches_literal_iff] at h
  have heq : List.Forall₂ (· = ·) name s := h.imp fun a b hab => by simpa [Pass.loose] using hab
  rw [List.forall₂_eq_eq_eq] at heq
  exact heq.symm

/-- A loose mention is a delimiter and the name after leading segments, before what closes it. -/
theorem IsMention.text_of_loose {name : List Char} {p : Parts} (h : IsMention .loose name p) :
    ∃ d k v, p.text = d :: ((p.lead ++ name) ++ k :: v) ∧ p.opening = [d] ∧ p.rest = k :: v ∧
      Opens d ∧ closesLoose k = true := by
  obtain ⟨d, hopening, hd⟩ := matches_one_iff.1 h.opening
  have hbridge := matches_empty_iff.1 h.bridge
  have hclosing := matches_empty_iff.1 h.closing
  have hahead := h.ahead closesLoose rfl
  cases hrest : p.rest with
  | nil => simp [hrest] at hahead
  | cons k v =>
    refine ⟨d, k, v, ?_, hopening, rfl, ?_, by simpa [hrest] using hahead⟩
    · simp [Parts.text, hopening, hbridge, hclosing, eq_of_nameRegex_loose h.name, hrest]
    · simpa [Opens, IsQuote, or_assoc] using hd

section

variable {name : List Char} (hplain : PlainValue name) (hne : name ≠ [])
  {t y : List Char} (ht : PlainValue t) (htne : t ≠ []) (hy : startsToken y = false)

include ht in
/-- No mention starts within a token. -/
theorem mention?_loose_of_token {x : List Char} (hx : x <:+ t) (hxne : x ≠ []) :
    Pass.loose.mention? name (x ++ y) = none := by
  by_contra hmention
  obtain ⟨hit, hhit⟩ := Option.ne_none_iff_exists'.1 hmention
  obtain ⟨p, htext, -, hreads, hahead⟩ := exists_parts (by simp [Pass.all]) hhit
  obtain ⟨d, k, v, hp, -, -, hd, -⟩ := IsMention.text_of_loose ⟨hreads, hahead⟩
  obtain ⟨c, x, rfl⟩ := List.exists_cons_of_ne_nil hxne
  rw [hp] at htext
  obtain ⟨rfl, -⟩ := List.cons.inj htext
  exact (ht d (hx.mem (by simp))).1 hd

include hplain hne ht htne hy

/-- A mention that starts in a gap starts with its last delimiter, and the token after it is the name
with its leading segments. -/
theorem IsMention.eq_of_gap {x : List Char} {p : Parts} (h : IsMention .loose name p)
    (hx : IsGap x) (hxne : x ≠ []) (htext : p.text = x ++ (t ++ y)) :
    ∃ d k v, x = [d] ∧ Opens d ∧ y = k :: v ∧ closesLoose k = true ∧ t = p.lead ++ name ∧
      p.opening = [d] ∧ p.rest = y := by
  obtain ⟨d, k, v, hp, hopening, hrest, hd, hk⟩ := h.text_of_loose
  have hword : PlainValue (p.lead ++ name) := (plainValue_lead h.lead).append hplain
  have hwordne : p.lead ++ name ≠ [] := by simp [hne]
  have hv : startsToken (k :: v) = false := startsToken_of_delimits ⟨k, v, rfl, Or.inr hk⟩
  obtain ⟨c, x, rfl⟩ := List.exists_cons_of_ne_nil hxne
  rw [hp, List.cons_append] at htext
  obtain ⟨rfl, hsplit⟩ := List.cons.inj htext
  -- both sides are cut into tokens and gaps in one way
  have htokens := congrArg tokens hsplit
  have hgaps := congrArg gaps hsplit
  have hgap := (isGap_cons.1 hx).2
  rw [tokens_plain_append hword hwordne hv, tokens_token_append ht htne hy hgap] at htokens
  rw [gaps_plain_append hword hwordne hv, gaps_token_append ht htne hy hgap] at hgaps
  obtain ⟨hsame, -⟩ := List.cons.inj htokens
  obtain ⟨rfl, -⟩ := List.cons.inj hgaps
  rw [hsame] at hsplit
  have hrest' : k :: v = y := List.append_cancel_left hsplit
  exact ⟨d, k, v, rfl, hd, hrest'.symm, hk, hsame.symm, hopening, hrest.trans hrest'⟩

/-- Where a mention starts in a gap, the token after the gap is one. -/
theorem looseMention_of_mention {g g' x : List Char} {gs : List (List Char)} (hg : IsGap g)
    (hgs : gaps y = g' :: gs) (hx : x <:+ g) (hxne : x ≠ [])
    (hmention : Pass.loose.mention? name (x ++ (t ++ y)) ≠ none) :
    (∃ d, x = [d]) ∧ LooseMention name g t g' := by
  obtain ⟨hit, hhit⟩ := Option.ne_none_iff_exists'.1 hmention
  obtain ⟨p, htext, -, hreads, hahead⟩ := exists_parts (by simp [Pass.all]) hhit
  have hp : IsMention .loose name p := ⟨hreads, hahead⟩
  obtain ⟨d, k, v, rfl, hd, rfl, hk, htoken, -, -⟩ :=
    hp.eq_of_gap hplain hne ht htne hy (fun c hc => hg c (hx.mem hc)) hxne htext
  obtain ⟨u, rfl⟩ := hx
  obtain ⟨v', hv'⟩ := exists_head_gap hy hgs
  exact ⟨⟨d, rfl⟩, ⟨u, d, rfl, hd⟩, ⟨k, v', hv', hk⟩, p.lead, hp.lead, htoken⟩

end

/-! ## One application -/

section

variable {name : List Char} (hplain : PlainValue name) (hne : name ≠ []) (hname : StartsName name)
  (reference : List Char)
include hplain hne

theorem write_loose_of_isGap {g : List Char} (hg : IsGap g) :
    Pass.loose.write name reference g = g := by
  have hnone : ∀ x, x <:+ g → x ≠ [] → Pass.loose.mention? name (x ++ []) = none := by
    intro x hx _
    by_contra hmention
    obtain ⟨hit, hhit⟩ := Option.ne_none_iff_exists'.1 hmention
    obtain ⟨p, htext, -, hreads, hahead⟩ := exists_parts (by simp [Pass.all]) hhit
    obtain ⟨d, k, v, hp, -⟩ := IsMention.text_of_loose ⟨hreads, hahead⟩
    rw [List.append_nil, hp] at htext
    obtain ⟨c, hc⟩ := List.exists_mem_of_ne_nil name hne
    have hgap := hg c (hx.mem (by simp [← htext, hc]))
    simp [hplain.isDelimiter_eq_false hc] at hgap
  have hwrite := write_append_of_none reference hnone
  simpa [Pass.write, cut] using hwrite

variable {g t y g' : List Char} {gs : List (List Char)} (hg : IsGap g) (ht : PlainValue t)
  (htne : t ≠ []) (hy : startsToken y = false) (hgs : gaps y = g' :: gs)
include hg ht htne hy hgs

theorem write_loose_of_not (hmention : ¬ LooseMention name g t g') :
    Pass.loose.write name reference (g ++ (t ++ y)) =
      g ++ (t ++ Pass.loose.write name reference y) := by
  have hnone : ∀ x, x <:+ g ++ t → x ≠ [] → Pass.loose.mention? name (x ++ y) = none := by
    rintro x ⟨a, ha⟩ hxne
    rcases List.append_eq_append_iff.1 ha with ⟨c, rfl, rfl⟩ | ⟨c, rfl, htoken⟩
    · by_cases hc : c = []
      · rw [hc, List.nil_append]
        exact mention?_loose_of_token ht List.suffix_rfl htne
      · by_contra hfound
        rw [List.append_assoc] at hfound
        exact hmention (looseMention_of_mention hplain hne ht htne hy hg hgs
          (List.suffix_append a c) hc hfound).2
    · exact mention?_loose_of_token ht ⟨c, htoken.symm⟩ hxne
  rw [← List.append_assoc, write_append_of_none reference hnone, List.append_assoc]

include hname

theorem write_loose_of_mention (hmention : LooseMention name g t g') :
    Pass.loose.write name reference (g ++ (t ++ y)) =
      g ++ (reference ++ Pass.loose.write name reference y) := by
  obtain ⟨⟨u, d, rfl, hd⟩, ⟨k, v', rfl, hk⟩, ld, hld, rfl⟩ := hmention
  obtain ⟨v, rfl⟩ : ∃ v, y = k :: v := by
    obtain ⟨z, rfl⟩ := exists_of_head_gap hgs
    exact ⟨v' ++ z, rfl⟩
  have hall : Pass.loose ∈ Pass.all := by simp [Pass.all]
  -- nothing is found in front of the last delimiter
  have hnone : ∀ x, x <:+ u → x ≠ [] →
      Pass.loose.mention? name (x ++ d :: ((ld ++ name) ++ k :: v)) = none := by
    intro x hx hxne
    by_contra hfound
    have hsuffix : x ++ [d] <:+ u ++ [d] := by
      obtain ⟨a, rfl⟩ := hx
      exact ⟨a, by simp⟩
    rw [List.append_cons] at hfound
    obtain ⟨⟨d', hsingle⟩, -⟩ := looseMention_of_mention hplain hne ht htne hy hg hgs hsuffix
      (by simp) hfound
    rw [List.append_eq_singleton_iff] at hsingle
    simp [hxne] at hsingle
  have hfound : Pass.loose.mention? name (d :: ((ld ++ name) ++ k :: v)) ≠ none := by
    rw [List.append_assoc]
    exact mention?_loose_ne_none hne hname hd hld hk
  obtain ⟨hit, hhit⟩ := Option.ne_none_iff_exists'.1 hfound
  obtain ⟨p, htext, hp, -, hwrite⟩ := write_of_some hall reference hhit
  have hdelimiter : IsGap [d] := fun c hc => hg c (by simp_all)
  obtain ⟨d', -, -, hsingle, -, -, -, -, hopening, hrest⟩ :=
    hp.eq_of_gap hplain hne ht htne hy hdelimiter (by simp) htext
  obtain rfl : d = d' := by simpa using hsingle
  have hmentionText : (p.renew Pass.loose.style reference).mentionText = d :: reference := by
    have hbridge := matches_empty_iff.1 hp.bridge
    have hclosing := matches_empty_iff.1 hp.closing
    simp [Parts.mentionText, Parts.renew, Pass.loose, Style.bridge, Style.closing, hopening,
      hbridge, hclosing]
  rw [hmentionText, hrest] at hwrite
  rw [List.append_assoc u, List.singleton_append, write_append_of_none reference hnone, hwrite,
    List.append_assoc u]
  rfl

end

section

variable {name : List Char} (hplain : PlainValue name) (hne : name ≠ []) (hname : StartsName name)
  (reference : List Char)
include hplain hne hname

theorem write_loose (text : List Char) : Pass.loose.write name reference text =
    weaveWith (writeLoose name reference) (gaps text) (tokens text) := by
  induction text using token_induction with
  | gap g hg =>
    rw [write_loose_of_isGap hplain hne reference hg, gaps_of_isGap hg, tokens_of_isGap hg]
    simp [weaveWith]
  | token g t y hg ht htne hy ih =>
    obtain ⟨g', gs, hgs⟩ := List.exists_cons_of_ne_nil (gaps_ne_nil y)
    rw [gaps_token_append ht htne hy hg, tokens_token_append ht htne hy hg, hgs, weaveWith, ← hgs,
      ← ih, writeLoose]
    split
    · next hmention =>
      exact write_loose_of_mention hplain hne hname reference hg ht htne hy hgs hmention
    · next hmention => exact write_loose_of_not hplain hne reference hg ht htne hy hgs hmention

end

/-- One application of the loose pass. A token is replaced if it is the name in exact letter case after
leading segments, stands behind what opens a mention and in front of what closes one; all other
tokens and all delimiters stay. Tokens that share a delimiter do not matter to each other. Names of
files hold no slash, so none starts with one. -/
theorem replace?_loose {name : List Char} (hplain : PlainValue name) (hne : name ≠ [])
    (hname : StartsName name) (reference text : List Char) :
    (Pass.loose.replace? name reference text).getD text =
      weaveWith (fun before token after =>
        if LooseMention name before token after then reference else token)
        (gaps text) (tokens text) := by
  have hwrite := text_apply name reference ⟨text, false⟩ Pass.loose
  rw [write_loose hplain hne hname] at hwrite
  rw [Draft.apply] at hwrite
  cases hreplace : Pass.loose.replace? name reference text with
  | none =>
    simp only [hreplace] at hwrite
    exact hwrite
  | some written =>
    simp only [hreplace] at hwrite
    exact hwrite

/-- Mentions of a stylesheet that share delimiters, between others that are none. -/
def neighbours : List Char := "a.css a.css\"./a.css' A.css a.css( ../a.css)".toList

/-- Neighbours that share a blank or a quote are all replaced. The name is not replaced in another
letter case, at the start of the text, or before a parenthesis that opens. -/
theorem replace?_loose_of_neighbours : PlainValue "a.css".toList ∧ "a.css".toList ≠ [] ∧
    StartsName "a.css".toList ∧
    (Pass.loose.replace? "a.css".toList "css/a.css".toList neighbours).getD neighbours =
      "a.css css/a.css\"css/a.css' A.css a.css( css/a.css)".toList := by
  have hplain : PlainValue "a.css".toList := by decide
  have hname : StartsName "a.css".toList := by decide
  refine ⟨hplain, by decide, hname, ?_⟩
  rw [replace?_loose hplain (by decide) hname]
  decide +kernel

end SiteFolders.Reference
