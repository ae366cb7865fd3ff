import SiteFolders.Proofs.Regex.Preference
import SiteFolders.Proofs.Reference.Openings

/-!
# Preferred readings

The readings of a mention at one place are listed in the order of preference (`hits_eq`): of two of
them, the one comes first whose parts are longer, where the first part in which they differ counts
(`pairwise_readings`). All expressions of the table have falling lengths (`falls_passes`): most
match one prefix of a text at most, and of the others the keywords of scripts, the start of a
stylesheet value and the leading segments prefer the longest one.
-/

namespace SiteFolders.Reference

open SiteFolders.Text Regex

/-! ## Leading segments -/

theorem lengths_segment (before : Option Char) (rest : List Char) :
    segment.lengths before rest = match rest with
      | '.' :: '/' :: _ => [2, 1]
      | '.' :: '.' :: '/' :: _ => [1, 3]
      | '.' :: _ => [1]
      | _ => [] := by
  split
  · rfl
  · rfl
  · next c rest hslash hdot =>
    cases rest with
    | nil => rfl
    | cons c rest =>
      have hc : c ≠ '/' := by
        rintro rfl
        exact hslash _ rfl
      -- a dot behind the dot may still be followed by a slash, but that is the second case
      by_cases hc' : c = '.'
      · subst hc'
        cases rest with
        | nil => rfl
        | cons k rest =>
          have hk : k ≠ '/' := by
            rintro rfl
            exact hdot _ rfl
          simp [segment, lengths, opt, hk, distinct]
      · simp [segment, lengths, opt, hc, hc', distinct]
  · next hdot =>
    cases rest with
    | nil => rfl
    | cons c rest =>
      have hc : c ≠ '.' := by
        rintro rfl
        exact hdot _ rfl
      simp [segment, lengths, opt, hc, distinct]

/-- Of two rounds from one place, the first one is preferred. -/
theorem eq_of_append_eq_pair {a b k j : Nat} {front back : List Nat} (h : front ++ k :: back = [a, b])
    (hj : j ∈ front) : front = [a] ∧ k = b := by
  match front with
  | [] => simp at hj
  | [c] =>
    simp only [List.cons_append, List.nil_append, List.cons.injEq] at h
    exact ⟨by rw [h.1], h.2.1⟩
  | c :: d :: front => simp at h

/-- The segments come in an order in which a later one leads to nothing new: one dot reaches no further
than a dot and a slash, and two dots and a slash are also reached by two rounds. -/
theorem orderly_segment (before : Option Char) (rest : List Char) :
    Orderly (segment.rounds before rest) := by
  intro n front k back hrounds x m hx hk hle
  obtain ⟨j, hj, hreaches⟩ := hx
  have hrounds' : front ++ k :: back =
      ((segment.lengths (charBefore before rest n) (rest.drop n)).map (n + ·)).filter (n < ·) :=
    hrounds.symm
  have hnext : ∀ i, rest.drop (n + i) = (rest.drop n).drop i := fun i => by rw [List.drop_drop]
  rw [lengths_segment] at hrounds'
  split at hrounds'
  · next t ht =>
    obtain ⟨rfl, rfl⟩ := eq_of_append_eq_pair (a := n + 2) (b := n + 1) (by simpa using hrounds') hj
    obtain rfl := List.mem_singleton.1 hj
    -- after the dot alone comes the slash, with which no segment starts
    have hnone : segment.rounds before rest (n + 1) = [] := by
      rw [rounds, lengths_segment, hnext, ht]
      rfl
    have hm : m = n + 1 := by
      cases hk.cases_head with
      | inl h => exact h.symm
      | inr h =>
        obtain ⟨l, hl, -⟩ := h
        simp [hnone] at hl
    have := hreaches.le
    omega
  · next t ht =>
    obtain ⟨rfl, rfl⟩ := eq_of_append_eq_pair (a := n + 1) (b := n + 3) (by simpa using hrounds') hj
    -- from one dot on, `./` reaches what `../` reaches
    have hround : n + 3 ∈ segment.rounds before rest (n + 1) := by
      rw [rounds, lengths_segment, hnext, ht]
      simp
    exact ⟨n + 1, by simp, .head ⟨hround, by omega⟩ hk⟩
  · cases front with
    | nil => simp at hj
    | cons c front => simp at hrounds'
  · simp at hrounds'

/-- The longest run of leading segments is preferred. -/
theorem falls_lead : lead.Falls := falls_star orderly_segment

/-! ## The other parts -/

theorem starts_quote : quote.Starts IsQuote :=
  (starts_one _).mono fun c hc => by simpa [IsQuote] using hc

theorem starts_mark (k : Char) : (mark k).Starts (· = k) :=
  (starts_one _).mono fun c hc => by simpa using hc

theorem starts_word {s : String} {c : Char} {w : List Char} (h : s.toList = c :: w) :
    (word s).Starts fun k => sameFold c k = true := by
  rw [word, h]
  exact starts_literal _ c w

theorem deterministic_word (s : String) : (word s).Deterministic := deterministic_literal _ _

theorem deterministic_mark (k : Char) : (mark k).Deterministic := deterministic_one _

theorem deterministic_quote : quote.Deterministic := deterministic_one _

theorem deterministic_blanks_seq {P : Char → Prop} {b : Regex} (hb : b.Deterministic)
    (hstarts : b.Starts P) (hP : ∀ c, P c → isBlank c = false) : Deterministic (.seq blanks b) :=
  hb.star_one_seq (hstarts.mono hP)

theorem deterministic_someBlanks_seq {P : Char → Prop} {b : Regex} (hb : b.Deterministic)
    (hstarts : b.Starts P) (hP : ∀ c, P c → isBlank c = false) : Deterministic (.seq someBlanks b) :=
  hb.plus_one_seq (hstarts.mono hP)

/-- A list of expressions is nested to the left, but it matches what it does nested to the right. -/
theorem deterministic_concat {r : Regex} {rs : List Regex}
    (h : Deterministic (.seq r (rs.foldr .seq .empty))) : Deterministic (.concat (r :: rs)) :=
  h.congr fun _ => matches_foldl_seq.trans matches_seq_iff.symm

/-- A quote at the end of a list. -/
theorem deterministic_lastQuote : Deterministic (.seq quote .empty) :=
  deterministic_quote.seq deterministic_empty

theorem starts_lastQuote : Starts IsQuote (.seq quote .empty) := starts_quote.seq _

theorem not_isBlank_of_isQuote : ∀ c, IsQuote c → isBlank c = false := fun _ hc => hc.not_isBlank

theorem not_isBlank_of_eq {k : Char} (hk : isBlank k = false) : ∀ c, c = k → isBlank c = false := by
  rintro c rfl
  exact hk

/-- Blanks and a quote at the end of a list. -/
theorem deterministic_blanksQuote : Deterministic (.seq blanks (.seq quote .empty)) :=
  deterministic_blanks_seq deterministic_lastQuote starts_lastQuote not_isBlank_of_isQuote

/-- Blanks and a character at the end of a list. -/
theorem deterministic_blanksMark {k : Char} (hk : isBlank k = false) :
    Deterministic (.seq blanks (.seq (mark k) .empty)) :=
  deterministic_blanks_seq ((deterministic_mark k).seq deterministic_empty) ((starts_mark k).seq _)
    (not_isBlank_of_eq hk)

/-- A character of some kind before blanks and a quote. -/
theorem deterministic_markQuote (k : Char) :
    Deterministic (.seq (mark k) (.seq blanks (.seq quote .empty))) :=
  (deterministic_mark k).seq deterministic_blanksQuote

theorem deterministic_attribute (w : String) :
    Deterministic (.concat [word w, blanks, mark '=', blanks, quote]) :=
  deterministic_concat <| (deterministic_word w).seq <|
    deterministic_blanks_seq (deterministic_markQuote '=') ((starts_mark '=').seq _)
      (not_isBlank_of_eq (by decide))

theorem deterministic_import (w : String) : Deterministic (.concat [word w, someBlanks, quote]) :=
  deterministic_concat <| (deterministic_word w).seq <|
    deterministic_someBlanks_seq deterministic_lastQuote starts_lastQuote not_isBlank_of_isQuote

theorem isLetter_of_sameFold_u {c : Char} (h : sameFold 'u' c = true) : IsLetter c :=
  of_sameFold_letter (by decide) h

/-- The start of a stylesheet import, where a second keyword or a quote comes after the blanks. -/
theorem deterministic_cssImport : Pass.cssImport.opening.Deterministic := by
  have hurl : Starts (fun c => sameFold 'u' c = true) (.concat [word "url", mark '(', blanks]) :=
    ((starts_word (by rfl)).seq _).seq _
  have hvalue : Deterministic (.seq (.concat [word "url", mark '(', blanks]) (.seq quote .empty)) := by
    refine Deterministic.congr (b := .seq (.seq (word "url") (mark '(')) (.seq blanks
      (.seq quote .empty))) ?_ fun _ => matches_seq_assoc
    exact ((deterministic_word _).seq (deterministic_mark _)).seq deterministic_blanksQuote
  have hopt := hvalue.opt_seq deterministic_lastQuote hurl starts_lastQuote fun c hc hq =>
    (isLetter_of_sameFold_u hc).not_opens (Or.inl hq)
  refine deterministic_concat ((deterministic_word _).seq (deterministic_someBlanks_seq hopt
    (P := fun c => sameFold 'u' c = true ∨ IsQuote c) ?_ ?_))
  · exact (hurl.mono fun _ => Or.inl).opt_seq (starts_lastQuote.mono fun _ => Or.inr)
  · rintro c (hc | hc)
    · exact (isLetter_of_sameFold_u hc).not_isBlank
    · exact hc.not_isBlank

/-! ## The table -/

/-- Each closing matches one prefix of a text at most. -/
theorem deterministic_closing {pass : Pass} (hpass : pass ∈ Pass.all) :
    pass.closing.Deterministic := by
  simp only [Pass.all, List.mem_cons, List.not_mem_nil, or_false] at hpass
  rcases hpass with rfl | rfl | rfl | rfl | rfl | rfl | rfl | rfl | rfl
  case inr.inr.inl =>
    have hparen := deterministic_blanksMark (k := ')') (by decide)
    refine deterministic_concat ((deterministic_quote.seq hparen).opt_seq hparen starts_quote
      (((starts_mark ')').seq _).star_one_seq) ?_)
    rintro c hq (hblank | rfl)
    · simp [hq.not_isBlank] at hblank
    · exact absurd hq (by decide)
  case inr.inr.inr.inr.inr.inl =>
    have hsemicolon := (deterministic_mark ';').seq deterministic_empty
    have hclose := ((deterministic_mark ')').seq hsemicolon).opt_seq hsemicolon (starts_mark ')')
      ((starts_mark ';').seq _) (by rintro c rfl h; exact absurd h (by decide))
    refine deterministic_concat (deterministic_quote.seq (deterministic_blanks_seq hclose
      (P := fun c => c = ')' ∨ c = ';') ?_ ?_))
    · exact ((starts_mark ')').mono fun _ => Or.inl).opt_seq
        (((starts_mark ';').seq _).mono fun _ => Or.inr)
    · rintro c (rfl | rfl) <;> decide
  case inr.inr.inr.inr.inr.inr.inl =>
    exact deterministic_concat (deterministic_quote.seq (deterministic_blanksMark (by decide)))
  case inr.inr.inr.inr.inr.inr.inr.inr => exact deterministic_empty
  all_goals exact deterministic_quote

/-- What stands between a start and the leading segments matches one prefix of a text at most. -/
theorem deterministic_bridge {pass : Pass} (hpass : pass ∈ Pass.all) : pass.bridge.Deterministic := by
  simp only [Pass.all, List.mem_cons, List.not_mem_nil, or_false] at hpass
  rcases hpass with rfl | rfl | rfl | rfl | rfl | rfl | rfl | rfl | rfl
  case inr.inr.inr.inr.inr.inr.inl =>
    refine Deterministic.congr (b := .seq blanks ([mark '(', blanks, quote].foldr .seq .empty)) ?_
      fun _ => matches_foldl_seq.trans matches_seq_iff.symm
    exact deterministic_blanks_seq (deterministic_markQuote '(') ((starts_mark '(').seq _)
      (not_isBlank_of_eq (by decide))
  case inr.inr.inr.inr.inr.inr.inr.inl =>
    exact deterministic_someBlanks_seq deterministic_quote starts_quote not_isBlank_of_isQuote
  all_goals exact deterministic_empty

theorem falls_word (w : String) : (word w).Falls :=
  (deterministic_word w).falls (edgeFree_literal _ _)

theorem spelled_of_mem_lengths {w : String} {before : Option Char} {rest : List Char} {n : Nat}
    (h : n ∈ (word w).lengths before rest) :
    n = w.toList.length ∧ ∃ s t, rest = s ++ t ∧ Spelled w.toList s := by
  obtain ⟨s, t, rfl, rfl, hs⟩ := (mem_lengths_iff (edgeFree_literal _ _)).1 h
  have hspelled := matches_word_iff.1 hs
  exact ⟨hspelled.length_eq.symm, s, t, rfl, hspelled⟩

/-- No text starts with two keywords that start with different letters. -/
theorem not_both_words {w w' : String} {c c' : Char} {u u' : List Char} (hw : w.toList = c :: u)
    (hw' : w'.toList = c' :: u') (hc : sameFold c c' = false) {before : Option Char}
    {rest : List Char} {n n' : Nat} (h : n ∈ (word w).lengths before rest)
    (h' : n' ∈ (word w').lengths before rest) : False := by
  obtain ⟨-, s, t, rfl, hs⟩ := spelled_of_mem_lengths h
  obtain ⟨-, s', t', htext, hs'⟩ := spelled_of_mem_lengths h'
  rw [hw] at hs
  rw [hw'] at hs'
  obtain ⟨k, v, hk, -, rfl⟩ := List.forall₂_cons_left_iff.1 hs
  obtain ⟨k', v', hk', -, rfl⟩ := List.forall₂_cons_left_iff.1 hs'
  obtain ⟨rfl, -⟩ := List.cons.inj htext
  simp only [sameFold, beq_iff_eq, beq_eq_false_iff_ne] at hk hk' hc
  exact hc (hk.trans hk'.symm)

/-- The longer one of two keywords is preferred. -/
theorem falls_phpKeyword : phpKeyword.Falls := by
  -- where two keywords fit, one starts the other, and the longer one stands first
  have hrequire : Falls (.alt (word "require_once") (word "require")) := by
    refine (falls_word _).alt (falls_word _) fun before rest n hn m hm => ?_
    rw [(spelled_of_mem_lengths hn).1, (spelled_of_mem_lengths hm).1]
    decide
  -- keywords with different first letters never both fit
  have hother : ∀ {w : String} {u : List Char}, w.toList = 'i' :: u → ∀ before rest,
      ∀ n ∈ (word w).lengths before rest,
      ∀ m ∈ (Regex.alt (word "require_once") (word "require")).lengths before rest, False := by
    intro w u hw before rest n hn m hm
    rw [lengths, mem_distinct] at hm
    rcases List.mem_append.1 hm with hm | hm
    · exact not_both_words hw (by rfl) (by decide) hn hm
    · exact not_both_words hw (by rfl) (by decide) hn hm
  have hinclude : Falls (.alt (word "include") (.alt (word "require_once") (word "require"))) :=
    (falls_word _).alt hrequire fun before rest n hn m hm =>
      (hother (by rfl) before rest n hn m hm).elim
  have hall : Falls (.alt (word "include_once") (.alt (word "include")
      (.alt (word "require_once") (word "require")))) := by
    refine (falls_word _).alt hinclude fun before rest n hn m hm => ?_
    rw [lengths, mem_distinct] at hm
    rcases List.mem_append.1 hm with hm | hm
    · rw [(spelled_of_mem_lengths hn).1, (spelled_of_mem_lengths hm).1]
      decide
    · exact (hother (by rfl) before rest n hn m hm).elim
  exact hall

/-- After fewer blanks than there are comes another blank. -/
theorem exists_blank_of_fewer {b t b' t' : List Char} (hb : AllBlank b) (h : b ++ t = b' ++ t')
    (hlt : b'.length < b.length) : ∃ c v, t' = c :: v ∧ isBlank c = true := by
  rcases List.append_eq_append_iff.1 h with ⟨x, rfl, -⟩ | ⟨x, rfl, hx⟩
  · rw [List.length_append] at hlt
    omega
  · cases x with
    | nil => simp at hlt
    | cons c x => exact ⟨c, x ++ t, hx, hb c (by simp)⟩

/-- In the start of a stylesheet value, more blanks and a quote after them are preferred. -/
theorem falls_cssUrl : Pass.cssUrl.opening.Falls := by
  have hstart : Deterministic (.seq (word "url") (mark '(')) :=
    (deterministic_word _).seq (deterministic_mark _)
  have hblanks : Falls (.seq (.seq (word "url") (mark '(')) blanks) :=
    hstart.falls_seq ⟨edgeFree_literal _ _, trivial⟩ (falls_star_one isBlank)
  have hquote : Falls (.opt quote) := by
    refine (deterministic_quote.falls trivial).alt (deterministic_empty.falls trivial) ?_
    intro before rest n hn m hm
    obtain ⟨s, t, rfl, rfl, hs⟩ := (mem_lengths_iff (r := quote) trivial).1 hn
    obtain ⟨q, rfl, -⟩ := matches_quote_iff.1 hs
    simp_all [lengths]
  have hfree : EdgeFree (.seq (.seq (word "url") (mark '(')) blanks) :=
    ⟨⟨edgeFree_literal _ _, trivial⟩, trivial⟩
  refine hblanks.seq hquote fun before rest n hn m hm hlt l hl => ?_
  obtain ⟨s, t, rfl, rfl, hs⟩ := (mem_lengths_iff hfree).1 hn
  obtain ⟨s', t', htext, rfl, hs'⟩ := (mem_lengths_iff hfree).1 hm
  obtain ⟨u, b, rfl, hu, hb⟩ := matches_seq_iff.1 hs
  obtain ⟨u', b', rfl, hu', hb'⟩ := matches_seq_iff.1 hs'
  rw [htext, List.drop_left] at hl
  rw [List.append_assoc, List.append_assoc] at htext
  obtain rfl := hstart u _ u' _ hu hu' htext
  rw [matches_blanks_iff] at hb
  -- a blank follows, so no quote is taken there
  obtain ⟨c, v, rfl, hc⟩ := exists_blank_of_fewer hb (List.append_cancel_left htext)
    (by simpa using hlt)
  have hnone : quote.lengths (charBefore before (u ++ b' ++ c :: v) (u ++ b').length) (c :: v) = [] := by
    have hq : ¬ IsQuote c := fun hq => by simp [hq.not_isBlank] at hc
    simpa [quote, lengths, IsQuote] using hq
  rw [opt, lengths, mem_distinct, hnone] at hl
  obtain rfl : l = 0 := by simpa [lengths] using hl
  exact hlt

/-- All openings prefer the longest prefix that they match. -/
theorem falls_opening {pass : Pass} (hpass : pass ∈ Pass.all) : pass.opening.Falls := by
  have hfree := (edgeFree_passes pass hpass).1
  simp only [Pass.all, List.mem_cons, List.not_mem_nil, or_false] at hpass
  rcases hpass with rfl | rfl | rfl | rfl | rfl | rfl | rfl | rfl | rfl
  · exact (deterministic_attribute "href").falls hfree
  · exact (deterministic_attribute "src").falls hfree
  · exact falls_cssUrl
  · exact (deterministic_import "from").falls hfree
  · exact (deterministic_import "import").falls hfree
  · exact deterministic_cssImport.falls hfree
  · exact falls_phpKeyword
  · exact falls_phpKeyword
  · exact (deterministic_one _).falls hfree

theorem deterministic_nameRegex (pass : Pass) (name : List Char) :
    (pass.nameRegex name).Deterministic := deterministic_literal _ _

/-! ## Readings in order -/

/-- The prefixes that an expression matches, each with the rest of the text. -/
def prefixes (r : Regex) (text : List Char) : List (List Char × List Char) :=
  (r.lengths none text).map fun n => (text.take n, text.drop n)

theorem mem_prefixes_iff {r : Regex} (hr : r.EdgeFree) {text s t : List Char} :
    (s, t) ∈ prefixes r text ↔ text = s ++ t ∧ Matches r s := by
  simp only [prefixes, List.mem_map, Prod.mk.injEq, mem_lengths_iff hr]
  constructor
  · rintro ⟨_, ⟨u, v, rfl, rfl, hu⟩, rfl, rfl⟩
    rw [List.take_left, List.drop_left]
    exact ⟨rfl, hu⟩
  · rintro ⟨rfl, hs⟩
    exact ⟨s.length, ⟨s, t, rfl, rfl, hs⟩, List.take_left, List.drop_left⟩

theorem pairwise_prefixes {r : Regex} (hr : r.Falls) (text : List Char) :
    (prefixes r text).Pairwise fun x y => y.1.length < x.1.length := by
  refine List.pairwise_map.2 ((hr none text).imp_of_mem fun {n m} hn hm hlt => ?_)
  have := le_length_of_mem_lengths r hn
  have := le_length_of_mem_lengths r hm
  simp only [List.length_take]
  omega

theorem prefixes_of_deterministic {r : Regex} (h : r.Deterministic) (hr : r.EdgeFree)
    (text : List Char) : (prefixes r text).length ≤ 1 := by
  rw [prefixes, List.length_map]
  exact h.length_lengths_le hr none text

/-- The parts of all readings at the start of a text, the preferred ones first. -/
def Pass.readings (pass : Pass) (name text : List Char) : List Parts :=
  (prefixes pass.opening text).flatMap fun o =>
    (prefixes pass.bridge o.2).flatMap fun b =>
      (prefixes lead b.2).flatMap fun l =>
        (prefixes (pass.nameRegex name) l.2).flatMap fun n =>
          (prefixes pass.closing n.2).map fun c => ⟨o.1, b.1, l.1, n.1, c.1, c.2⟩

theorem length_take_of_mem {r : Regex} {text : List Char} {n : Nat}
    (h : n ∈ r.lengths none text) : (text.take n).length = n := by
  rw [List.length_take]
  exact Nat.min_eq_left (le_length_of_mem_lengths r h)

/-- The matcher lists the hits of the readings. -/
theorem hits_eq (pass : Pass) (name text : List Char) :
    pass.hits name text = (pass.readings name text).map (·.hit pass) := by
  simp only [Pass.hits, Pass.readings, prefixes, List.flatMap_map, List.map_flatMap, List.map_map,
    ← List.drop_drop]
  refine List.flatMap_congr fun a ha => List.flatMap_congr fun b hb => List.flatMap_congr fun c hc =>
    List.flatMap_congr fun d hd => List.map_congr_left fun e he => ?_
  simp only [Function.comp_apply, Parts.hit, length_take_of_mem ha, length_take_of_mem hb,
    length_take_of_mem hc, length_take_of_mem hd, length_take_of_mem he, Hit.mk.injEq, true_and]
  rw [List.head?_drop, List.getElem?_drop, List.getElem?_drop, List.getElem?_drop, List.getElem?_drop]
  congr 1
  omega

section

variable {pass : Pass} (hpass : pass ∈ Pass.all) {name text : List Char}
include hpass

/-- The readings are the ways to take a text apart into parts of a mention. -/
theorem mem_readings_iff {p : Parts} :
    p ∈ pass.readings name text ↔ p.text = text ∧ Reads pass name p := by
  obtain ⟨hopening, hbridge, hclosing⟩ := edgeFree_passes pass hpass
  have hlead : lead.EdgeFree := by decide
  have hname : (pass.nameRegex name).EdgeFree := edgeFree_literal _ _
  simp only [Pass.readings, List.mem_flatMap, List.mem_map, Prod.exists, mem_prefixes_iff hopening,
    mem_prefixes_iff hbridge, mem_prefixes_iff hlead, mem_prefixes_iff hname,
    mem_prefixes_iff hclosing]
  constructor
  · rintro ⟨o, _, ⟨rfl, ho⟩, b, _, ⟨rfl, hb⟩, l, _, ⟨rfl, hl⟩, n, _, ⟨rfl, hn⟩, c, r, ⟨rfl, hc⟩, rfl⟩
    exact ⟨rfl, ho, hb, hl, hn, hc⟩
  · rintro ⟨rfl, ho, hb, hl, hn, hc⟩
    exact ⟨p.opening, _, ⟨rfl, ho⟩, p.bridge, _, ⟨rfl, hb⟩, p.lead, _, ⟨rfl, hl⟩, p.name, _,
      ⟨rfl, hn⟩, p.closing, p.rest, ⟨rfl, hc⟩, rfl⟩

omit hpass in
/-- The order of preference: the opening is as long as possible, and then the leading segments are. -/
def Parts.PreferredTo (p q : Parts) : Prop :=
  q.opening.length < p.opening.length ∨
    q.opening.length = p.opening.length ∧ q.lead.length < p.lead.length

/-- Of two readings the preferred one comes first. Given the opening and the leading segments, there
is one reading at most. -/
theorem pairwise_readings : (pass.readings name text).Pairwise Parts.PreferredTo := by
  obtain ⟨hopening, hbridge, hclosing⟩ := edgeFree_passes pass hpass
  refine List.pairwise_flatMap.2 ⟨fun o _ => List.pairwise_flatMap.2 ⟨fun b _ =>
    List.pairwise_flatMap.2 ⟨fun l _ => List.pairwise_flatMap.2 ⟨fun n _ => ?_, ?_⟩, ?_⟩, ?_⟩, ?_⟩
  · refine pairwise_of_length_le_one ?_
    rw [List.length_map]
    exact prefixes_of_deterministic (deterministic_closing hpass) hclosing n.2
  · exact pairwise_of_length_le_one
      (prefixes_of_deterministic (deterministic_nameRegex pass name) (edgeFree_literal _ _) l.2)
  · refine (pairwise_prefixes falls_lead b.2).imp fun hlt => ?_
    simp only [List.mem_flatMap, List.mem_map]
    rintro _ ⟨_, -, _, -, rfl⟩ _ ⟨_, -, _, -, rfl⟩
    exact Or.inr ⟨rfl, hlt⟩
  · exact pairwise_of_length_le_one
      (prefixes_of_deterministic (deterministic_bridge hpass) hbridge o.2)
  · refine (pairwise_prefixes (falls_opening hpass) text).imp fun hlt => ?_
    simp only [List.mem_flatMap, List.mem_map]
    rintro _ ⟨_, -, _, -, _, -, _, -, rfl⟩ _ ⟨_, -, _, -, _, -, _, -, rfl⟩
    exact Or.inl hlt

omit hpass in
/-- Parts that are read at a place and preferred to all others that are read there. -/
structure Preferred (pass : Pass) (file : List Char) (p : Parts) : Prop
    extends Reads pass file p where
  best : ∀ q, q.text = p.text → Reads pass file q → q = p ∨ p.PreferredTo q

/-- The first reading is the preferred one. -/
theorem firstHit?_eq_some_iff {hit : Hit} : pass.firstHit? name text = some hit ↔
    ∃ p : Parts, p.text = text ∧ p.hit pass = hit ∧ Preferred pass name p := by
  -- the readings are listed in the order of preference, and all of them are
  have hpairwise : (pass.readings name text).Pairwise Parts.PreferredTo := pairwise_readings hpass
  have hmem : ∀ p, p ∈ pass.readings name text ↔ p.text = text ∧ Reads pass name p :=
    fun p => mem_readings_iff hpass
  rw [Pass.firstHit?, hits_eq, List.head?_map]
  cases hlist : pass.readings name text with
  | nil =>
    simp only [hlist, List.not_mem_nil, false_iff, not_and] at hmem
    simp only [List.head?_nil, Option.map_none, reduceCtorEq, false_iff]
    rintro ⟨p, htext, -, hp⟩
    exact hmem p htext hp.toReads
  | cons first others =>
    rw [hlist] at hpairwise
    simp only [hlist] at hmem
    obtain ⟨hbefore, -⟩ := List.pairwise_cons.1 hpairwise
    obtain ⟨hfirst, hreads⟩ := (hmem first).1 List.mem_cons_self
    simp only [List.head?_cons, Option.map_some, Option.some.injEq]
    constructor
    · rintro rfl
      refine ⟨first, hfirst, rfl, hreads, fun q htext hq => ?_⟩
      rcases List.mem_cons.1 ((hmem q).2 ⟨htext.trans hfirst, hq⟩) with rfl | hq
      · exact Or.inl rfl
      · exact Or.inr (hbefore q hq)
    · rintro ⟨p, htext, rfl, hp⟩
      rcases hp.best first (hfirst.trans htext.symm) hreads with rfl | hpreferred
      · rfl
      · rcases List.mem_cons.1 ((hmem p).2 ⟨htext, hp.toReads⟩) with rfl | hlater
        · rfl
        · have hfirst := hbefore p hlater
          unfold Parts.PreferredTo at hpreferred hfirst
          omega

end

end SiteFolders.Reference
