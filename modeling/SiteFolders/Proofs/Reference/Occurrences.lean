import SiteFolders.Proofs.Reference.Mentions
import SiteFolders.Proofs.Reference.Scan
import SiteFolders.Proofs.Reference.Templates

/-!
# Occurrences

What a pass lists for a text are the leftmost mentions that do not overlap, each read in the
preferred way (`Found`, `found_iff`), where a mention is an opening, leading segments, the file name
and a closing (`reads_iff`). They stand where the written form of the pass has its leftmost matches
(`Leftmost`, `leftmost_iff`), whatever characters the file name has (`occurrences_exact`).
-/

namespace SiteFolders.Reference

open SiteFolders.Text Regex

/-! ## Readings of the whole expression -/

/-- The expression of a pass has the lengths of the readings, each at its first place. -/
theorem lengths_regex {pass : Pass} (hpass : pass ∈ Pass.all) (name : List Char)
    (before : Option Char) (text : List Char) :
    (pass.regex name).lengths before text = distinct ((pass.hits name text).map (·.length)) := by
  obtain ⟨hopening, hbridge, hclosing⟩ := edgeFree_passes pass hpass
  have hlead : lead.EdgeFree := by decide
  have hname : (pass.nameRegex name).EdgeFree := edgeFree_literal _ _
  -- what stands before a place does not matter, so every part is a function of the text from there
  have hparts : ∀ {r : Regex}, r.EdgeFree → ∃ f : List Char → List Nat,
      ∀ before rest, r.lengths before rest = f rest := fun hr => ⟨_, lengths_eq_none hr⟩
  obtain ⟨_, ho⟩ := hparts hopening
  obtain ⟨_, hb⟩ := hparts hbridge
  obtain ⟨_, hl⟩ := hparts hlead
  obtain ⟨_, hn⟩ := hparts hname
  obtain ⟨_, hc⟩ := hparts hclosing
  simp only [Pass.regex, Regex.concat, List.foldl_cons, List.foldl_nil, lengths, ho, hb, hl, hn, hc,
    flatMap_distinct, Pass.hits, List.map_flatMap, List.flatMap_assoc, List.flatMap_map, List.map_map,
    Function.comp_def]

/-! ## The grammar of mentions -/

/-- What a pass takes as a file name: the name itself, letter case aside if the pass does so. -/
def Pass.Names (pass : Pass) (name s : List Char) : Prop :=
  if pass.ignoreCase then Spelled name s else s = name

theorem matches_nameRegex_iff {pass : Pass} {name s : List Char} :
    Matches (pass.nameRegex name) s ↔ pass.Names name s := by
  rw [Pass.nameRegex, matches_literal_iff, Pass.Names]
  cases pass.ignoreCase with
  | true => rfl
  | false =>
    simp only [Bool.false_eq_true, if_false, beq_iff_eq, List.forall₂_eq_eq_eq]
    exact eq_comm

/-- A mention is an opening, leading segments, the name and a closing. -/
theorem reads_iff {pass : Pass} {name : List Char} {p : Parts} : Reads pass name p ↔
    Matches pass.opening p.opening ∧ Matches pass.bridge p.bridge ∧ IsDotted p.lead ∧
      pass.Names name p.name ∧ Matches pass.closing p.closing := by
  rw [← matches_lead_iff, ← matches_nameRegex_iff]
  exact ⟨fun h => ⟨h.opening, h.bridge, h.lead, h.name, h.closing⟩,
    fun ⟨ho, hb, hl, hn, hc⟩ => ⟨ho, hb, hl, hn, hc⟩⟩

/-! ## The leftmost mentions -/

/-- The mentions found in a text that starts at an offset. A mention is taken at the first place where
there is one, in its preferred reading, and the search goes on behind it. -/
inductive Found (pass : Pass) (name : List Char) : Nat → List Char → List Occurrence → Prop where
  | done {offset} : Found pass name offset [] []
  | skip {offset c rest os} (h : ∀ p : Parts, p.text = c :: rest → ¬ Reads pass name p)
      (later : Found pass name (offset + c.utf8Size) rest os) : Found pass name offset (c :: rest) os
  | take {offset p os} (h : Preferred pass name p)
      (later : Found pass name (offset + byteLength p.mentionText) p.rest os) :
      Found pass name offset p.text (⟨offset, offset + byteLength p.mentionText, p.hit pass⟩ :: os)

section

variable {pass : Pass} (hpass : pass ∈ Pass.all) {name : List Char}
include hpass

theorem firstHit?_eq_none_iff {text : List Char} : pass.firstHit? name text = none ↔
    ∀ p : Parts, p.text = text → ¬ Reads pass name p := by
  rw [Pass.firstHit?, List.head?_eq_none_iff, hits_eq, List.map_eq_nil_iff,
    List.eq_nil_iff_forall_not_mem]
  simp only [mem_readings_iff hpass, not_and]

theorem Reads.mentionText_ne_nil {p : Parts} (h : Reads pass name p) : p.mentionText ≠ [] := by
  obtain ⟨y, d, hfront, -⟩ := front_last hpass h.opening h.bridge
  rw [Parts.mentionText, ← List.append_assoc, hfront]
  simp

theorem length_pos (text : List Char) (hit : Hit) (h : pass.firstHit? name text = some hit) :
    0 < hit.length := by
  obtain ⟨p, -, rfl, hp⟩ := (firstHit?_eq_some_iff hpass).1 h
  have := List.length_pos_iff.2 (hp.toReads.mentionText_ne_nil hpass)
  simp only [Parts.mentionText, List.length_append] at this
  simp only [Parts.hit]
  omega

/-- A mention is cut off where it is read. -/
theorem occurrencesFrom_text {p : Parts} (h : Preferred pass name p) (offset : Nat) :
    occurrencesFrom offset (cut (pass.firstHit? name) p.text) =
      ⟨offset, offset + byteLength p.mentionText, p.hit pass⟩ ::
        occurrencesFrom (offset + byteLength p.mentionText) (cut (pass.firstHit? name) p.rest) := by
  have hne := h.toReads.mentionText_ne_nil hpass
  have hlen : (p.hit pass).length = p.mentionText.length := by
    simp [Parts.hit, Parts.mentionText, Nat.add_assoc]
  have hfirst : pass.firstHit? name p.text = some (p.hit pass) :=
    (firstHit?_eq_some_iff hpass).2 ⟨p, rfl, rfl, h⟩
  have htext : p.text ≠ [] := by simp [Parts.text_eq_mentionText, hne]
  have hpos : 0 < (p.hit pass).length := hlen ▸ List.length_pos_iff.2 hne
  rw [cut_of_find htext hpos hfirst, hlen, Parts.text_eq_mentionText, List.take_left, List.drop_left]
  rfl

/-- A pass lists what is found. -/
theorem found_iff {offset : Nat} {text : List Char} {os : List Occurrence} :
    Found pass name offset text os ↔ os = occurrencesFrom offset (cut (pass.firstHit? name) text) := by
  constructor
  · intro h
    induction h with
    | done => simp [cut, occurrencesFrom]
    | skip h _ ih =>
      rw [ih, cut_of_none ((firstHit?_eq_none_iff hpass).2 h)]
      rfl
    | take h _ ih => rw [ih, occurrencesFrom_text hpass h]
  · rintro rfl
    -- backwards on what is left of the text: a mention takes at least one character
    induction hn : text.length using Nat.strong_induction_on generalizing text offset with
    | _ n ih =>
    subst hn
    cases text with
    | nil =>
      rw [cut, occurrencesFrom]
      exact .done
    | cons c rest =>
      cases hfirst : pass.firstHit? name (c :: rest) with
      | none =>
        rw [cut_of_none hfirst]
        exact .skip ((firstHit?_eq_none_iff hpass).1 hfirst) (ih rest.length (by simp) rfl)
      | some hit =>
        obtain ⟨p, htext, -, h⟩ := (firstHit?_eq_some_iff hpass).1 hfirst
        have hshorter : p.rest.length < (c :: rest).length := by
          have := List.length_pos_iff.2 (h.toReads.mentionText_ne_nil hpass)
          rw [← htext, Parts.text_eq_mentionText, List.length_append]
          omega
        rw [← htext, occurrencesFrom_text hpass h]
        exact .take h (ih _ hshorter rfl)

end

/-! ## What the written form finds -/

/-- The byte ranges of the leftmost matches of an expression in a text that starts at an offset, where
no match is empty. The preferred match is taken at the first place that has one, and the search goes on
behind it. -/
inductive Leftmost (r : Regex) : Option Char → Nat → List Char → List (Nat × Nat) → Prop where
  | done {before offset} : Leftmost r before offset [] []
  | skip {before offset c rest spans} (h : r.lengths before (c :: rest) = [])
      (later : Leftmost r (some c) (offset + c.utf8Size) rest spans) :
      Leftmost r before offset (c :: rest) spans
  | take {before offset s rest spans} (hne : s ≠ [])
      (h : (r.lengths before (s ++ rest)).head? = some s.length)
      (later : Leftmost r s.getLast? (offset + byteLength s) rest spans) :
      Leftmost r before offset (s ++ rest) ((offset, offset + byteLength s) :: spans)

/-- The byte range of an occurrence. -/
def Occurrence.span (o : Occurrence) : Nat × Nat := (o.start, o.stop)

section

variable {find : List Char → Option Hit} {r : Regex}
  (hfind : ∀ before text, (r.lengths before text).head? = (find text).map (·.length))
  (hpos : ∀ text hit, find text = some hit → 0 < hit.length)
include hfind hpos

theorem Leftmost.spans_eq {before : Option Char} {offset : Nat} {text : List Char}
    {spans : List (Nat × Nat)} (h : Leftmost r before offset text spans) :
    spans = (occurrencesFrom offset (cut find text)).map Occurrence.span := by
  induction h with
  | done => simp [cut, occurrencesFrom]
  | @skip before offset c rest spans h _ ih =>
    have hnone : find (c :: rest) = none := by
      simpa [h] using (hfind before (c :: rest)).symm
    rw [ih, cut_of_none hnone]
    rfl
  | @take before offset s rest spans hne h _ ih =>
    obtain ⟨hit, hhit, hlen⟩ := Option.map_eq_some_iff.1 ((hfind before (s ++ rest)).symm.trans h)
    rw [ih, cut_of_find (by simp [hne]) (hpos _ _ hhit) hhit, hlen, List.take_left, List.drop_left]
    rfl

/-- A text is as long as the match at its start, or longer. -/
theorem exists_append_of_find {before : Option Char} {text : List Char} {hit : Hit}
    (hhit : find text = some hit) : ∃ s rest, text = s ++ rest ∧ s.length = hit.length ∧ s ≠ [] ∧
      (r.lengths before text).head? = some s.length := by
  have hhead : (r.lengths before text).head? = some hit.length := by
    rw [hfind, hhit, Option.map_some]
  have hle := le_length_of_mem_lengths r (List.mem_of_head? hhead)
  have hlen : (text.take hit.length).length = hit.length := by
    rw [List.length_take, Nat.min_eq_left hle]
  refine ⟨text.take hit.length, text.drop hit.length, (List.take_append_drop _ text).symm, hlen,
    List.ne_nil_of_length_pos ?_, ?_⟩
  · rw [hlen]
    exact hpos _ _ hhit
  · rw [hlen]
    exact hhead

theorem leftmost_cut {before : Option Char} {offset : Nat} {text : List Char} :
    Leftmost r before offset text
      ((occurrencesFrom offset (cut find text)).map Occurrence.span) := by
  induction hn : text.length using Nat.strong_induction_on generalizing text offset before with
  | _ n ih =>
  subst hn
  cases text with
  | nil =>
    rw [cut, occurrencesFrom, List.map_nil]
    exact .done
  | cons c rest =>
    cases hhit : find (c :: rest) with
    | none =>
      rw [cut_of_none hhit]
      refine .skip ?_ (ih rest.length (by simp) rfl)
      simpa [hhit] using hfind before (c :: rest)
    | some hit =>
      -- the match is the first part of the text, and the search goes on in the rest
      obtain ⟨s, later, htext, hlen, hne, hhead⟩ := exists_append_of_find hfind hpos hhit
      have hpos' := hpos _ _ hhit
      rw [htext] at hhit hhead ⊢
      rw [cut_of_find (by simp [hne]) hpos' hhit, ← hlen, List.take_left, List.drop_left]
      refine .take hne hhead (ih later.length ?_ rfl)
      rw [htext, List.length_append]
      exact Nat.lt_add_of_pos_left (List.length_pos_iff.2 hne)

/-- Cutting a text by what an expression prefers at each place gives its leftmost matches. -/
theorem leftmost_iff {before : Option Char} {offset : Nat} {text : List Char}
    {spans : List (Nat × Nat)} : Leftmost r before offset text spans ↔
      spans = (occurrencesFrom offset (cut find text)).map Occurrence.span :=
  ⟨fun h => h.spans_eq hfind hpos, fun h => h ▸ leftmost_cut hfind hpos⟩

end

/-- What is read from the written form of a pass prefers at every place what the pass does. -/
theorem head?_lengths_of_same {pass : Pass} (hpass : pass ∈ Pass.all) {name : List Char} {r : Regex}
    (h : Same r (pass.regex name)) (before : Option Char) (text : List Char) :
    (r.lengths before text).head? = (pass.firstHit? name text).map (·.length) := by
  rw [h before text, lengths_regex hpass, head?_distinct, List.head?_map]
  rfl

/-- File names are matched literally. The written form of a pass for a file name is a group, the rest
of what stands in front of the leading segments, the expression for these, the escaped name and the
closing, in a group of its own if it is kept. All of these are read as what the pass matches with,
whatever characters the name has. The leftmost matches of the whole are the ranges of what the pass
lists for a text, and these are the leftmost mentions that do not overlap, with the texts of the two
groups, where a mention is an opening, leading segments, the name itself, letter case aside if the pass
does so, and a closing. -/
theorem occurrences_exact {pass : Pass} (hpass : pass ∈ Pass.all) (name : List Char) :
    (∃ o b c : List Char,
      pass.source name = '(' :: (o ++ ')' :: b) ++ (leadSource ++ (escaped name ++
        if pass.keepsClosing then '(' :: (c ++ [')']) else c)) ∧
      pass.Writes o pass.opening ∧ pass.Writes b pass.bridge ∧ pass.Writes leadSource lead ∧
      pass.Writes (escaped name) (pass.nameRegex name) ∧ pass.Writes c pass.closing) ∧
    (∃ part, pass.read (pass.source name) = .ok part ∧ ∀ text spans,
      Leftmost part.regex none 0 text spans ↔
        spans = (pass.occurrences name text).map Occurrence.span) ∧
    (∀ p : Parts, Reads pass name p ↔
      Matches pass.opening p.opening ∧ Matches pass.bridge p.bridge ∧ IsDotted p.lead ∧
        pass.Names name p.name ∧ Matches pass.closing p.closing) ∧
    ∀ text os, Found pass name 0 text os ↔ os = pass.occurrences name text := by
  obtain ⟨l, hl⟩ := exists_isOf hpass
  obtain ⟨hopening, hbridge, hclosing⟩ := hl.writes_parts
  obtain ⟨part, hread, hsame⟩ := hl.writes_source name
  refine ⟨⟨l.opening.print, l.bridge.print, l.closing.print, ?_, hopening, hbridge,
    writes_leadSource pass, writes_escaped pass name, hclosing⟩, ⟨part, hread, ?_⟩,
    fun p => reads_iff, fun text os => found_iff hpass⟩
  · rw [hl.source_eq, Layout.print_whole, Layout.print_ending]
  · exact fun text spans => leftmost_iff (head?_lengths_of_same hpass hsame) (length_pos hpass)

/-- A file named like the place for names, with a plus sign. -/
theorem occurrences_exact_of_marker : Pass.href ∈ Pass.all ∧
    (∃ part, Pass.href.read (Pass.href.source "\x7bname\x7d+.css".toList) = .ok part ∧
      Leftmost part.regex none 0 "href=\"./\x7bNAME\x7d+.css\"".toList
        ((Pass.href.occurrences "\x7bname\x7d+.css".toList
          "href=\"./\x7bNAME\x7d+.css\"".toList).map Occurrence.span)) ∧
    Found .href "\x7bname\x7d+.css".toList 0 "href=\"./\x7bNAME\x7d+.css\"".toList
      (Pass.href.occurrences "\x7bname\x7d+.css".toList "href=\"./\x7bNAME\x7d+.css\"".toList) := by
  have hpass : Pass.href ∈ Pass.all := by simp [Pass.all]
  obtain ⟨-, ⟨part, hread, hleftmost⟩, -, hfound⟩ :=
    occurrences_exact hpass "\x7bname\x7d+.css".toList
  exact ⟨hpass, ⟨part, hread, (hleftmost _ _).2 rfl⟩, (hfound _ _).2 rfl⟩

end SiteFolders.Reference
