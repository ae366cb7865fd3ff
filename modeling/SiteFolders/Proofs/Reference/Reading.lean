import SiteFolders.Reference.Moved
import SiteFolders.Proofs.Regex.Language
import SiteFolders.Proofs.Text.Folding

/-!
# Reading mentions

A mention that a pass finds is made of parts (`Parts`), each of which matches its expression
(`exists_parts`). What comes after the name is a quote, a closing parenthesis or a blank, whether
the pass takes it or only looks at it (`next_cases`).
-/

namespace SiteFolders.Reference

open SiteFolders.Text Regex

/-! ## Characters around mentions -/

/-- True of the quotes. -/
def IsQuote (c : Char) : Prop := c = '"' ∨ c = '\x27'

/-- True of what may stand right before a mention: a quote, a parenthesis or a blank. -/
def Opens (c : Char) : Prop := IsQuote c ∨ c = '(' ∨ isBlank c = true

instance (c : Char) : Decidable (IsQuote c) := inferInstanceAs (Decidable (_ ∨ _))

instance (c : Char) : Decidable (Opens c) := inferInstanceAs (Decidable (_ ∨ _ ∨ _))

theorem IsQuote.isMark {c : Char} (h : IsQuote c) : c.toNat < 0x41 := by
  rcases h with rfl | rfl <;> decide

theorem IsQuote.not_isBlank {c : Char} (h : IsQuote c) : isBlank c = false := by
  rcases h with rfl | rfl <;> decide

/-- A letter of ASCII, or one of the two characters that equal one up to letter case. -/
def IsLetter (c : Char) : Prop :=
  0x41 ≤ c.toNat ∧ c.toNat ≤ 0x5A ∨ 0x61 ≤ c.toNat ∧ c.toNat ≤ 0x7A ∨
    c.toNat = 0x17F ∨ c.toNat = 0x212A

namespace IsLetter

variable {c : Char} (h : IsLetter c)
include h

theorem not_isBlank : isBlank c = false := by
  rcases h with h | h | h | h <;> (simp [isBlank]; omega)

theorem ne_of_isMark {k : Char} (hk : k.toNat < 0x41) : c ≠ k := by
  rintro rfl
  rcases h with h | h | h | h <;> omega

theorem not_opens : ¬ Opens c := by
  rintro ((hc | hc) | hc | hc)
  · exact h.ne_of_isMark (by decide) hc
  · exact h.ne_of_isMark (by decide) hc
  · exact h.ne_of_isMark (by decide) hc
  · simp [h.not_isBlank] at hc

theorem not_closes : closesLoose c = false := by
  have hquote : c ≠ '"' := h.ne_of_isMark (by decide)
  have happos : c ≠ '\x27' := h.ne_of_isMark (by decide)
  have hparen : c ≠ ')' := h.ne_of_isMark (by decide)
  simp [closesLoose, hquote, happos, hparen, h.not_isBlank]

end IsLetter

/-- The characters of a keyword in any letter case are letters. -/
theorem isLetter_of_spelled {w kw : List Char}
    (hw : w.all (fun c => 0x61 ≤ c.toNat ∧ c.toNat ≤ 0x7A) = true) (h : Spelled w kw) :
    ∀ c ∈ kw, IsLetter c := by
  simp only [List.all_eq_true, decide_eq_true_eq] at hw
  intro c hc
  obtain ⟨k, hk, hsame⟩ := h.exists_of_mem hc
  exact of_sameFold_letter (hw k hk) hsame

/-! ## Expressions of the table -/

theorem matches_literal_iff {same : Char → Char → Bool} {w s : List Char} :
    Matches (.literal same w) s ↔ List.Forall₂ (fun a b => same a b = true) w s := by
  induction w generalizing s with
  | nil => simp [literal, matches_empty_iff]
  | cons c w ih =>
    simp only [literal, matches_seq_iff, matches_one_iff, ih, List.forall₂_cons_left_iff]
    constructor
    · rintro ⟨_, v, rfl, ⟨k, rfl, hk⟩, hv⟩
      exact ⟨k, v, hk, hv, rfl⟩
    · rintro ⟨k, v, hk, hv, rfl⟩
      exact ⟨[k], v, rfl, ⟨k, rfl, hk⟩, hv⟩

theorem matches_word_iff {w : String} {s : List Char} :
    Matches (word w) s ↔ Spelled w.toList s := matches_literal_iff

theorem matches_mark_iff {c : Char} {s : List Char} : Matches (mark c) s ↔ s = [c] := by
  rw [mark, matches_one_iff]
  constructor
  · rintro ⟨k, rfl, hk⟩
    simpa using hk
  · rintro rfl
    exact ⟨c, rfl, by simp⟩

theorem matches_quote_iff {s : List Char} : Matches quote s ↔ ∃ q, s = [q] ∧ IsQuote q := by
  simp [quote, matches_one_iff, IsQuote]

/-- True of texts of blanks only. -/
def AllBlank (s : List Char) : Prop := ∀ c ∈ s, isBlank c = true

theorem matches_blanks_iff {s : List Char} : Matches blanks s ↔ AllBlank s := by
  constructor
  · refine forall_mem_of_matches_star fun t ht c hc => ?_
    rcases matches_one_iff.1 ht with ⟨k, rfl, hk⟩
    rwa [List.mem_singleton.1 hc]
  · intro h
    induction s with
    | nil => exact .done
    | cons c s ih =>
      exact .round (.one (h c (by simp))) (ih fun k hk => h k (List.mem_cons_of_mem _ hk))

theorem matches_someBlanks_iff {s : List Char} :
    Matches someBlanks s ↔ s ≠ [] ∧ AllBlank s := by
  rw [someBlanks, plus, matches_seq_iff]
  constructor
  · rintro ⟨u, v, rfl, hu, hv⟩
    rcases matches_one_iff.1 hu with ⟨c, rfl, hc⟩
    refine ⟨by simp, fun k hk => ?_⟩
    rcases List.mem_cons.1 hk with rfl | hk
    · exact hc
    · exact matches_blanks_iff.1 hv k hk
  · rintro ⟨hne, hall⟩
    rcases List.exists_cons_of_ne_nil hne with ⟨c, s, rfl⟩
    exact ⟨[c], s, rfl, .one (hall c (by simp)),
      matches_blanks_iff.2 fun k hk => hall k (List.mem_cons_of_mem _ hk)⟩

/-- Leading segments are made of dots and slashes. -/
theorem mem_of_matches_lead {s : List Char} (h : Matches lead s) :
    ∀ c ∈ s, c = '.' ∨ c = '/' := by
  refine forall_mem_of_matches_star (fun t ht c hc => ?_) h
  simp only [segment, matches_alt_iff, matches_seq_iff, matches_opt_iff, matches_one_iff,
    beq_iff_eq] at ht
  rcases ht with ⟨u, v, rfl, ⟨_, rfl, rfl⟩, ⟨_, rfl, rfl⟩ | rfl⟩ |
    ⟨u, v, rfl, ⟨_, rfl, rfl⟩, x, y, rfl, ⟨_, rfl, rfl⟩, _, rfl, rfl⟩
  all_goals
    simp only [List.mem_append, List.mem_singleton, List.not_mem_nil, or_false] at hc
    grind

theorem edgeFree_passes : ∀ pass ∈ Pass.all,
    pass.opening.EdgeFree ∧ pass.bridge.EdgeFree ∧ pass.closing.EdgeFree := by
  decide

theorem edgeFree_literal (same : Char → Char → Bool) (w : List Char) :
    (literal same w).EdgeFree := by
  induction w with
  | nil => trivial
  | cons c w ih => exact ⟨trivial, ih⟩

/-! ## The parts of a mention -/

/-- A text that starts with a mention, taken apart. -/
structure Parts where
  opening : List Char
  bridge : List Char
  lead : List Char
  name : List Char
  closing : List Char
  rest : List Char

/-- The text that is taken apart. -/
def Parts.text (p : Parts) : List Char :=
  p.opening ++ (p.bridge ++ (p.lead ++ (p.name ++ (p.closing ++ p.rest))))

/-- The mention that the parts are of. -/
def Parts.hit (p : Parts) (pass : Pass) : Hit where
  opening := p.opening
  closing := if pass.keepsClosing then p.closing else []
  length := p.opening.length + p.bridge.length + p.lead.length + p.name.length + p.closing.length
  after := p.rest.head?

/-- The parts are those of a mention of a name that the pass reads. -/
structure Reads (pass : Pass) (name : List Char) (p : Parts) : Prop where
  opening : Matches pass.opening p.opening
  bridge : Matches pass.bridge p.bridge
  lead : Matches Reference.lead p.lead
  name : Matches (pass.nameRegex name) p.name
  closing : Matches pass.closing p.closing

/-- What a pass reads as a name is the name in any letter case. -/
theorem spelled_of_nameRegex {pass : Pass} {name s : List Char}
    (h : Matches (pass.nameRegex name) s) : Spelled name s := by
  rw [Pass.nameRegex, matches_literal_iff] at h
  refine h.imp fun a b hab => ?_
  split at hab
  · exact hab
  · obtain rfl : a = b := by simpa using hab
    exact sameFold_refl a

theorem Reads.spelled {pass : Pass} {name : List Char} {p : Parts} (h : Reads pass name p) :
    Spelled name p.name :=
  spelled_of_nameRegex h.name

/-- Every reading comes from parts. -/
theorem exists_parts_of_mem_hits {pass : Pass} (hpass : pass ∈ Pass.all) {name text : List Char}
    {hit : Hit} (h : hit ∈ pass.hits name text) :
    ∃ p : Parts, p.text = text ∧ p.hit pass = hit ∧ Reads pass name p := by
  rcases edgeFree_passes pass hpass with ⟨hopening, hbridge, hclosing⟩
  have hlead : Reference.lead.EdgeFree := by decide
  have hname : (pass.nameRegex name).EdgeFree := edgeFree_literal _ _
  simp only [Pass.hits, List.mem_flatMap, List.mem_map, mem_lengths_iff hopening,
    mem_lengths_iff hbridge, mem_lengths_iff hlead, mem_lengths_iff hname,
    mem_lengths_iff hclosing] at h
  obtain ⟨a, ⟨o, t, rfl, rfl, ho⟩, b, ⟨br, u, hu, rfl, hbr⟩, c, ⟨ld, v, hv, rfl, hld⟩,
    d, ⟨m, w, hw, rfl, hm⟩, e, ⟨cl, rest, hrest, rfl, hcl⟩, rfl⟩ := h
  -- what is left after each part is what the next part is read from
  rw [List.drop_left] at hu
  subst hu
  rw [← List.drop_drop, List.drop_left, List.drop_left] at hv
  subst hv
  rw [← List.drop_drop, ← List.drop_drop, List.drop_left, List.drop_left, List.drop_left] at hw
  subst hw
  have hdrop : (o ++ (br ++ (ld ++ (m ++ w)))).drop
      (o.length + br.length + ld.length + m.length) = w := by
    rw [← List.drop_drop, ← List.drop_drop, ← List.drop_drop, List.drop_left, List.drop_left,
      List.drop_left, List.drop_left]
  rw [hdrop] at hrest
  subst hrest
  refine ⟨⟨o, br, ld, m, cl, rest⟩, rfl, ?_, ho, hbr, hld, hm, hcl⟩
  -- the character that is looked at behind the hit is the first one of the rest
  have hafter : (o ++ (br ++ (ld ++ (m ++ (cl ++ rest)))))[o.length + br.length + ld.length
      + m.length + cl.length]? = rest.head? := by
    rw [List.head?_eq_getElem?]
    have hlen : o.length + br.length + ld.length + m.length + cl.length =
        (o ++ (br ++ (ld ++ (m ++ cl)))).length + 0 := by
      simp only [List.length_append]
      omega
    have hassoc : o ++ (br ++ (ld ++ (m ++ (cl ++ rest)))) =
        (o ++ (br ++ (ld ++ (m ++ cl)))) ++ rest := by simp
    rw [hlen, hassoc, List.getElem?_append_right (by omega)]
    congr 1
    omega
  simp [Parts.hit, hdrop, hafter]

/-- A mention is made of parts, and what comes after it is what the pass asks for. -/
theorem exists_parts {pass : Pass} (hpass : pass ∈ Pass.all) {name text : List Char} {hit : Hit}
    (h : pass.mention? name text = some hit) :
    ∃ p : Parts, p.text = text ∧ p.hit pass = hit ∧ Reads pass name p ∧
      ∀ test, pass.ahead = some test → p.rest.head?.any test = true := by
  rcases Option.filter_eq_some_iff.1 h with ⟨hfirst, haccepts⟩
  rcases exists_parts_of_mem_hits hpass (List.mem_of_head? hfirst) with ⟨p, htext, rfl, hreads⟩
  refine ⟨p, htext, rfl, hreads, fun test htest => ?_⟩
  simpa [Pass.accepts, htest, Parts.hit] using haccepts

/-- Where the parts of a mention are, there is a preferred reading. -/
theorem exists_firstHit? {pass : Pass} (hpass : pass ∈ Pass.all) {name : List Char} {p : Parts}
    (h : Reads pass name p) : ∃ hit, pass.firstHit? name p.text = some hit := by
  rcases edgeFree_passes pass hpass with ⟨hopening, hbridge, hclosing⟩
  have hlead : Reference.lead.EdgeFree := by decide
  have hname : (pass.nameRegex name).EdgeFree := edgeFree_literal _ _
  have hmem : ∃ hit, hit ∈ pass.hits name p.text := by
    rcases p with ⟨o, br, ld, m, cl, rest⟩
    simp only [Pass.hits, List.mem_flatMap, List.mem_map, Parts.text]
    refine ⟨_, o.length, mem_lengths_of_matches hopening h.opening, br.length, ?_, ld.length, ?_,
      m.length, ?_, cl.length, ?_, rfl⟩
    · rw [List.drop_left]
      exact mem_lengths_of_matches hbridge h.bridge
    · rw [← List.drop_drop, List.drop_left, List.drop_left]
      exact mem_lengths_of_matches hlead h.lead
    · rw [← List.drop_drop, ← List.drop_drop, List.drop_left, List.drop_left, List.drop_left]
      exact mem_lengths_of_matches hname h.name
    · rw [← List.drop_drop, ← List.drop_drop, ← List.drop_drop, List.drop_left, List.drop_left,
        List.drop_left, List.drop_left]
      exact mem_lengths_of_matches hclosing h.closing
  rcases hmem with ⟨hit, hhit⟩
  rcases List.exists_cons_of_ne_nil (List.ne_nil_of_mem hhit) with ⟨first, others, hlist⟩
  exact ⟨first, by simp [Pass.firstHit?, hlist]⟩

/-- A pass that takes mentions with their closing finds one where the parts of it are. -/
theorem mention?_isSome {pass : Pass} (hpass : pass ∈ Pass.all) (hahead : pass.ahead = none)
    {name : List Char} {p : Parts} (h : Reads pass name p) :
    (pass.mention? name p.text).isSome = true := by
  rcases exists_firstHit? hpass h with ⟨hit, hfirst⟩
  simp [Pass.mention?, hfirst, Pass.accepts, hahead, Option.filter]

/-! ## What comes after a mention -/

/-- True of what a closing is made of. -/
def Ends (c : Char) : Prop := closesLoose c = true ∨ c = ';'

theorem IsQuote.closesLoose {c : Char} (h : IsQuote c) : closesLoose c = true := by
  rcases h with rfl | rfl <;> decide

theorem closesLoose_of_isBlank {c : Char} (h : isBlank c = true) : closesLoose c = true := by
  simp [closesLoose, h]

theorem AllBlank.ends {b : List Char} (h : AllBlank b) : ∀ c ∈ b, Ends c :=
  fun c hc => Or.inl (closesLoose_of_isBlank (h c hc))

/-- A closing that starts with what closes a mention, and is made of what can end one. -/
def Closing (s : List Char) : Prop :=
  (∃ k t, s = k :: t ∧ closesLoose k = true) ∧ ∀ c ∈ s, Ends c

theorem closing_quote {q : Char} (hq : IsQuote q) {s : List Char} (hs : ∀ c ∈ s, Ends c) :
    Closing (q :: s) := by
  refine ⟨⟨q, s, rfl, hq.closesLoose⟩, fun c hc => ?_⟩
  rcases List.mem_cons.1 hc with rfl | hc
  · exact Or.inl hq.closesLoose
  · exact hs c hc

theorem closing_paren {b : List Char} (hb : AllBlank b) : Closing (b ++ [')']) := by
  refine ⟨?_, fun c hc => ?_⟩
  · cases b with
    | nil => exact ⟨')', [], rfl, by decide⟩
    | cons c b => exact ⟨c, b ++ [')'], rfl, closesLoose_of_isBlank (hb c (by simp))⟩
  · rcases List.mem_append.1 hc with hc | hc
    · exact hb.ends c hc
    · exact Or.inl (by simp_all; decide)

/-- What a mention ends with is nothing for a loose one, and else a quote and what may come after
it, or the parenthesis of a stylesheet value. -/
theorem closing_cases {pass : Pass} (hpass : pass ∈ Pass.all) {s : List Char}
    (h : Matches pass.closing s) : (pass = .loose ∧ s = []) ∨
      (pass = .cssUrl ∧ ∃ b, AllBlank b ∧ s = b ++ [')']) ∨
      pass.ahead = none ∧ ∃ q t, s = q :: t ∧ IsQuote q ∧ ∀ c ∈ t, Ends c := by
  have hquote : ∀ {t}, Matches quote t → ∃ q u, t = q :: u ∧ IsQuote q ∧ ∀ c ∈ u, Ends c := by
    intro t ht
    obtain ⟨q, rfl, hq⟩ := matches_quote_iff.1 ht
    exact ⟨q, [], rfl, hq, by simp⟩
  simp only [Pass.all, List.mem_cons, List.not_mem_nil, or_false] at hpass
  rcases hpass with rfl | rfl | rfl | rfl | rfl | rfl | rfl | rfl | rfl
  -- the stylesheet address: a quote is optional
  case inr.inr.inl =>
    simp only [Pass.cssUrl, Pass.keeping, concat, List.foldl, matches_seq_iff,
      matches_mark_iff, matches_quote_iff, matches_blanks_iff, matches_opt_iff] at h
    obtain ⟨_, _, rfl, ⟨t, b, rfl, ht, hb⟩, rfl⟩ := h
    rcases ht with ⟨q, rfl, hq⟩ | rfl
    · exact Or.inr (Or.inr ⟨rfl, q, b ++ [')'], by simp, hq, (closing_paren hb).2⟩)
    · exact Or.inr (Or.inl ⟨rfl, b, hb, rfl⟩)
  -- the stylesheet import: a quote, a parenthesis, and maybe a semicolon
  case inr.inr.inr.inr.inr.inl =>
    simp only [Pass.cssImport, Pass.keeping, concat, List.foldl, matches_seq_iff,
      matches_mark_iff, matches_quote_iff, matches_blanks_iff, matches_opt_iff] at h
    obtain ⟨_, _, rfl, ⟨_, t, rfl, ⟨_, b, rfl, ⟨q, rfl, hq⟩, hb⟩, ht⟩, rfl⟩ := h
    refine Or.inr (Or.inr ⟨rfl, q, b ++ (t ++ [';']), by simp, hq, fun c hc => ?_⟩)
    simp only [List.mem_append, List.mem_singleton] at hc
    rcases hc with hc | hc | rfl
    · exact hb.ends c hc
    · rcases ht with rfl | rfl
      · rw [List.mem_singleton.1 hc]
        exact Or.inl (by decide)
      · exact absurd hc List.not_mem_nil
    · exact Or.inr rfl
  -- the included file in parentheses
  case inr.inr.inr.inr.inr.inr.inl =>
    simp only [Pass.phpIncludeCall, concat, List.foldl, matches_seq_iff, matches_mark_iff,
      matches_quote_iff, matches_blanks_iff] at h
    obtain ⟨_, _, rfl, ⟨_, b, rfl, ⟨q, rfl, hq⟩, hb⟩, rfl⟩ := h
    exact Or.inr (Or.inr ⟨rfl, q, b ++ [')'], by simp, hq, (closing_paren hb).2⟩)
  case inr.inr.inr.inr.inr.inr.inr.inr => exact Or.inl ⟨rfl, matches_empty_iff.1 h⟩
  all_goals exact Or.inr (Or.inr ⟨rfl, hquote h⟩)

/-- The closing of a mention that is not loose. -/
theorem closing_of_matches {pass : Pass} (hpass : pass ∈ Pass.all) {s : List Char}
    (h : Matches pass.closing s) : pass = .loose ∧ s = [] ∨ pass.ahead = none ∧ Closing s := by
  rcases closing_cases hpass h with hloose | ⟨rfl, b, hb, rfl⟩ | ⟨hahead, q, t, rfl, hq, ht⟩
  · exact Or.inl hloose
  · exact Or.inr ⟨rfl, closing_paren hb⟩
  · exact Or.inr ⟨hahead, closing_quote hq ht⟩

/-- What comes right after the name in a mention. -/
theorem next_cases {pass : Pass} (hpass : pass ∈ Pass.all) {name : List Char} {p : Parts}
    (h : Reads pass name p)
    (hahead : ∀ test, pass.ahead = some test → p.rest.head?.any test = true) :
    (∃ k t, p.closing ++ p.rest = k :: t ∧ closesLoose k = true) ∧ ∀ c ∈ p.closing, Ends c := by
  rcases closing_of_matches hpass h.closing with ⟨rfl, hnil⟩ | ⟨-, ⟨k, t, hk, hcloses⟩, hends⟩
  · have hnext := hahead closesLoose rfl
    rw [hnil]
    refine ⟨?_, by simp⟩
    cases hrest : p.rest with
    | nil => simp [hrest] at hnext
    | cons k t => exact ⟨k, t, rfl, by simpa [hrest] using hnext⟩
  · exact ⟨⟨k, t ++ p.rest, by rw [hk]; rfl, hcloses⟩, hends⟩

end SiteFolders.Reference
