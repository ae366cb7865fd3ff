import SiteFolders.Proofs.Reference.ShortNames

/-!
# Segments in front of a name

What a mention may have between its opening delimiter and the file name. The expression for leading
segments matches the dotted texts (`matches_lead_iff`), and these are more than the runs of `./` and
`../`: the slash after one dot may be missing. A dotted text that ends without a slash, or has three
dots in a row, is no run of segments (`segmentRun_iff`), so the name of a dot file is read as its
dots in front of another name (`lead_of_mention`, `update_dotFile`).
-/

namespace SiteFolders.Reference

open SiteFolders.Text Regex

/-- Runs of the segments `./` and `../`. -/
inductive SegmentRun : List Char → Prop where
  | done : SegmentRun []
  | here {s} (h : SegmentRun s) : SegmentRun ('.' :: '/' :: s)
  | up {s} (h : SegmentRun s) : SegmentRun ('.' :: '.' :: '/' :: s)

/-- Texts of dots and slashes in which every slash comes after a dot. -/
structure IsDotted (s : List Char) : Prop where
  mem : ∀ c ∈ s, c = '.' ∨ c = '/'
  slash : ∀ a b, s = a ++ '/' :: b → a.getLast? = some '.'

theorem IsDotted.nil : IsDotted [] where
  mem := by simp
  slash := by simp

theorem IsDotted.head?_ne_slash {s : List Char} (h : IsDotted s) : s.head? ≠ some '/' := by
  intro hs
  cases s with
  | nil => simp at hs
  | cons c s =>
    obtain rfl : c = '/' := by simpa using hs
    have hlast := h.slash [] s rfl
    simp at hlast

/-- What follows a dot is dotted if it does not start with a slash. -/
theorem isDotted_cons_dot {s : List Char} (hs : s.head? ≠ some '/') :
    IsDotted ('.' :: s) ↔ IsDotted s := by
  constructor
  · intro h
    refine ⟨fun c hc => h.mem c (List.mem_cons_of_mem _ hc), ?_⟩
    intro a b hab
    have hlast := h.slash ('.' :: a) b (by rw [hab]; rfl)
    cases a with
    | nil => simp [hab] at hs
    | cons c a => rwa [List.getLast?_cons_cons] at hlast
  · intro h
    constructor
    · intro c hc
      rcases List.mem_cons.1 hc with rfl | hc
      · exact Or.inl rfl
      · exact h.mem c hc
    · intro a b hab
      cases a with
      | nil => simp at hab
      | cons c a =>
        obtain ⟨rfl, hs⟩ := List.cons.inj hab
        have hlast := h.slash a b hs
        cases a with
        | nil => rfl
        | cons k a => rwa [List.getLast?_cons_cons]

theorem isDotted_cons_slash {s : List Char} : IsDotted ('.' :: '/' :: s) ↔ IsDotted s := by
  constructor
  · intro h
    refine ⟨fun c hc => h.mem c (by simp [hc]), ?_⟩
    intro a b hab
    have hlast := h.slash ('.' :: '/' :: a) b (by rw [hab]; rfl)
    cases a with
    | nil => simp at hlast
    | cons c a => simpa using hlast
  · intro h
    constructor
    · intro c hc
      simp only [List.mem_cons] at hc
      rcases hc with rfl | rfl | hc
      · exact Or.inl rfl
      · exact Or.inr rfl
      · exact h.mem c hc
    · intro a b hab
      -- a slash of the longer text is the one in front, or one of `s` with something before it
      match a with
      | [] => simp at hab
      | [c] =>
        rcases List.cons.inj hab with ⟨rfl, -⟩
        rfl
      | [c, k] =>
        have hs : s = '/' :: b := by simpa using (List.cons.inj (List.cons.inj hab).2).2
        exact absurd (by rw [hs]; rfl) h.head?_ne_slash
      | c :: k :: l :: a =>
        have hs : s = (l :: a) ++ '/' :: b := (List.cons.inj (List.cons.inj hab).2).2
        simpa using h.slash _ _ hs

theorem matches_segment_iff {s : List Char} :
    Matches segment s ↔ s = ['.'] ∨ s = ['.', '/'] ∨ s = ['.', '.', '/'] := by
  simp only [segment, matches_alt_iff, matches_seq_iff, matches_opt_iff, matches_one_iff,
    beq_iff_eq]
  constructor
  · rintro (⟨u, v, rfl, ⟨_, rfl, rfl⟩, ⟨_, rfl, rfl⟩ | rfl⟩ |
      ⟨u, v, rfl, ⟨_, rfl, rfl⟩, x, y, rfl, ⟨_, rfl, rfl⟩, _, rfl, rfl⟩) <;> simp
  · rintro (rfl | rfl | rfl)
    · exact Or.inl ⟨['.'], [], rfl, ⟨'.', rfl, rfl⟩, Or.inr rfl⟩
    · exact Or.inl ⟨['.'], ['/'], rfl, ⟨'.', rfl, rfl⟩, Or.inl ⟨'/', rfl, rfl⟩⟩
    · exact Or.inr ⟨['.'], ['.', '/'], rfl, ⟨'.', rfl, rfl⟩, ['.'], ['/'], rfl, ⟨'.', rfl, rfl⟩,
        '/', rfl, rfl⟩

theorem isDotted_of_matches {s : List Char} (h : Matches lead s) : IsDotted s := by
  unfold lead at h
  generalize hr : Regex.star segment = r at h
  induction h with
  | done => exact .nil
  | @round a u v hround _ _ ih =>
    obtain rfl := Regex.star.inj hr
    have hv := ih rfl
    rcases matches_segment_iff.1 hround with rfl | rfl | rfl
    · exact (isDotted_cons_dot hv.head?_ne_slash).2 hv
    · exact isDotted_cons_slash.2 hv
    · exact (isDotted_cons_dot (by simp)).2 (isDotted_cons_slash.2 hv)
  | _ => cases hr

theorem matches_lead_of_isDotted : ∀ {s : List Char}, IsDotted s → Matches lead s
  | [], _ => .done
  | [c], h => by
    obtain rfl | rfl := h.mem c (by simp)
    · exact .round (matches_segment_iff.2 (Or.inl rfl)) .done
    · exact absurd rfl h.head?_ne_slash
  | c :: k :: s, h => by
    obtain rfl | rfl := h.mem c (by simp)
    · obtain rfl | rfl := h.mem k (by simp)
      · -- the second dot starts a segment of its own
        have hs : IsDotted ('.' :: s) := (isDotted_cons_dot (by simp)).1 h
        exact .round (matches_segment_iff.2 (Or.inl rfl)) (matches_lead_of_isDotted hs)
      · have hs : IsDotted s := isDotted_cons_slash.1 h
        exact .round (matches_segment_iff.2 (Or.inr (Or.inl rfl))) (matches_lead_of_isDotted hs)
    · exact absurd rfl h.head?_ne_slash

theorem matches_lead_iff {s : List Char} : Matches lead s ↔ IsDotted s :=
  ⟨isDotted_of_matches, matches_lead_of_isDotted⟩

theorem segmentRun_of_isDotted : ∀ {s : List Char}, IsDotted s →
    (s = [] ∨ s.getLast? = some '/') → ¬ "...".toList <:+: s → SegmentRun s
  | [], _, _, _ => .done
  | [c], h, hlast, _ => by
    obtain rfl : c = '/' := by simpa using hlast
    exact absurd rfl h.head?_ne_slash
  | c :: k :: s, h, hlast, hdots => by
    have hdots' : ¬ "...".toList <:+: s := fun hin => hdots (hin.trans ⟨[c, k], [], by simp⟩)
    obtain rfl | rfl := h.mem c (by simp)
    · obtain rfl | rfl := h.mem k (by simp)
      · have hs : IsDotted ('.' :: s) := (isDotted_cons_dot (by simp)).1 h
        -- two dots are followed by a slash: they do not end the text, and a third one is excluded
        cases s with
        | nil => simp at hlast
        | cons l s =>
          obtain rfl | rfl := hs.mem l (by simp)
          · exact absurd ⟨[], s, rfl⟩ hdots
          · refine .up (segmentRun_of_isDotted (isDotted_cons_slash.1 hs) ?_ fun hin => hdots'
              (hin.trans (List.infix_cons (List.infix_refl s))))
            cases s with
            | nil => exact Or.inl rfl
            | cons _ _ => simpa using hlast
      · refine .here (segmentRun_of_isDotted (isDotted_cons_slash.1 h) ?_ hdots')
        cases s with
        | nil => exact Or.inl rfl
        | cons _ _ => simpa using hlast
    · exact absurd rfl h.head?_ne_slash

/-- Dotted texts are runs of segments if a slash ends them and no three dots stand in a row. -/
theorem segmentRun_iff {s : List Char} : SegmentRun s ↔
    IsDotted s ∧ (s = [] ∨ s.getLast? = some '/') ∧ ¬ "...".toList <:+: s := by
  constructor
  · intro h
    induction h with
    | done => exact ⟨.nil, Or.inl rfl, by decide⟩
    | @here s h ih =>
      obtain ⟨hdotted, hlast, hdots⟩ := ih
      refine ⟨isDotted_cons_slash.2 hdotted, Or.inr ?_, ?_⟩
      · rcases hlast with rfl | hlast
        · rfl
        · rw [List.getLast?_cons_cons, List.getLast?_cons, hlast]
          rfl
      · intro hin
        -- three dots in a row cannot take in the slash, so they stand in what follows it
        rcases List.infix_cons_iff.1 hin with hin | hin
        · simp at hin
        · rcases List.infix_cons_iff.1 hin with hin | hin
          · simp at hin
          · exact hdots hin
    | @up s h ih =>
      obtain ⟨hdotted, hlast, hdots⟩ := ih
      refine ⟨(isDotted_cons_dot (by simp)).2 (isDotted_cons_slash.2 hdotted), Or.inr ?_, ?_⟩
      · rcases hlast with rfl | hlast
        · rfl
        · rw [List.getLast?_cons_cons, List.getLast?_cons_cons, List.getLast?_cons, hlast]
          rfl
      · intro hin
        rcases List.infix_cons_iff.1 hin with hin | hin
        · simp at hin
        · rcases List.infix_cons_iff.1 hin with hin | hin
          · simp at hin
          · rcases List.infix_cons_iff.1 hin with hin | hin
            · simp at hin
            · exact hdots hin
  · rintro ⟨hdotted, hlast, hdots⟩
    exact segmentRun_of_isDotted hdotted hlast hdots

/-- The characters of a mention. -/
def Parts.mentionText (p : Parts) : List Char :=
  p.opening ++ (p.bridge ++ (p.lead ++ (p.name ++ p.closing)))

/-- Where the parts of a mention stand, one is found, if what comes after it is what the pass asks
for. -/
theorem mention?_ne_none {pass : Pass} (hpass : pass ∈ Pass.all) {name : List Char}
    (hne : name ≠ []) (hname : StartsName name) {p : Parts} (h : Reads pass name p)
    (hahead : ∀ test, pass.ahead = some test → p.rest.head?.any test = true) :
    pass.mention? name p.text ≠ none := by
  rcases closing_of_matches hpass h.closing with ⟨rfl, hclosing⟩ | ⟨hnone, -⟩
  · rcases matches_one_iff.1 h.opening with ⟨d, hopening, hd⟩
    have hbridge : p.bridge = [] := matches_empty_iff.1 h.bridge
    have hexact : p.name = name := by
      have hsame := h.name
      rw [Pass.nameRegex, matches_literal_iff] at hsame
      exact (List.forall₂_eq_eq_eq ▸ hsame.imp fun a b hab => by simpa [Pass.loose] using hab :
        name = p.name).symm
    have hnext := hahead closesLoose rfl
    cases hrest : p.rest with
    | nil => simp [hrest] at hnext
    | cons c after =>
      have hopens : Opens d := by simpa [Opens, IsQuote, or_assoc] using hd
      have hcloses : closesLoose c = true := by simpa [hrest] using hnext
      have hfound : Pass.loose.mention? name (d :: (p.lead ++ (name ++ c :: after))) ≠ none :=
        mention?_loose_ne_none hne hname hopens h.lead hcloses
      simpa [Parts.text, hopening, hbridge, hexact, hclosing, hrest] using hfound
  · have hsome := mention?_isSome hpass hnone h
    intro hfound
    simp [hfound] at hsome

/-- A mention takes as many characters as its parts have. -/
theorem take_mentionText {pass : Pass} {p : Parts} {c : Char} {rest : List Char}
    (htext : p.text = c :: rest) (hpos : 0 < p.opening.length + p.bridge.length) :
    c :: rest.take ((p.hit pass).length - 1) = p.mentionText := by
  have hsplit : c :: rest = p.mentionText ++ p.rest := by
    rw [← htext]
    simp [Parts.text, Parts.mentionText]
  have hlen : (p.hit pass).length - 1 + 1 = p.mentionText.length := by
    simp only [Parts.hit, Parts.mentionText, List.length_append]
    omega
  rw [← List.take_succ_cons, hlen, hsplit, List.take_left]

/-! ## Leading segments of mentions -/

/-- In every mention of a file that is no dot file, what stands between the opening delimiter and
the name is dotted; it is a run of `./` and `../` exactly if it is empty or ends in a slash and has
no three dots in a row. Every run of `./` and `../` is taken, but so are one dot and two dots, so
that a dot file is read as the file whose name comes after its dots. -/
theorem lead_of_mention {pass : Pass} (hpass : pass ∈ Pass.all) {name : List Char}
    (hne : name ≠ []) (hdot : name.head? ≠ some '.') (hslash : '/' ∉ name) :
    (∀ text hit t, (Piece.mention hit t ∈ cut (pass.firstHit? name) text ∨
        Piece.mention hit t ∈ cut (pass.mention? name) text) →
      ∃ p : Parts, Reads pass name p ∧ p.hit pass = hit ∧ t = p.mentionText ∧
        (∃ d, (p.opening ++ p.bridge).getLast? = some d ∧ Opens d) ∧ IsDotted p.lead ∧
        (SegmentRun p.lead ↔
          (p.lead = [] ∨ p.lead.getLast? = some '/') ∧ ¬ "...".toList <:+: p.lead)) ∧
    ∀ p : Parts, Matches pass.opening p.opening → Matches pass.bridge p.bridge →
      SegmentRun p.lead ∨ p.lead = ".".toList ∨ p.lead = "..".toList →
      Matches (pass.nameRegex name) p.name → Matches pass.closing p.closing →
      (∀ test, pass.ahead = some test → p.rest.head?.any test = true) →
      pass.mention? name p.text ≠ none := by
  constructor
  · intro text hit t hmem
    -- both ways of cutting take a hit that was the first one at its place
    have hfirst : ∃ c rest, pass.firstHit? name (c :: rest) = some hit ∧
        t = c :: rest.take (hit.length - 1) := by
      rcases hmem with hmem | hmem
      · obtain ⟨_, -, hfind, c, rest, rfl, ht⟩ := exists_suffix_of_mem_cut hmem
        exact ⟨c, rest, hfind, ht⟩
      · obtain ⟨_, -, hfind, c, rest, rfl, ht⟩ := exists_suffix_of_mem_cut hmem
        exact ⟨c, rest, (Option.filter_eq_some_iff.1 hfind).1, ht⟩
    obtain ⟨c, rest, hfind, rfl⟩ := hfirst
    obtain ⟨p, htext, rfl, hreads⟩ := exists_parts_of_mem_hits hpass (List.mem_of_head? hfind)
    obtain ⟨y, d, hfront, hd, -⟩ := front_last hpass hreads.opening hreads.bridge
    have hdotted := matches_lead_iff.1 hreads.lead
    have hpos : 0 < p.opening.length + p.bridge.length := by
      rw [← List.length_append, hfront]
      simp
    refine ⟨p, hreads, rfl, ?_, ⟨d, by simp [hfront], hd⟩, hdotted, ?_⟩
    · exact take_mentionText htext hpos
    · rw [segmentRun_iff, and_iff_right hdotted]
  · intro p hopening hbridge hlead hname hclosing hahead
    have hdotted : IsDotted p.lead := by
      rcases hlead with h | h | h
      · exact (segmentRun_iff.1 h).1
      · rw [h]
        exact (isDotted_cons_dot (by simp)).2 .nil
      · rw [h]
        exact (isDotted_cons_dot (by decide)).2 ((isDotted_cons_dot (by decide)).2 .nil)
    have hstarts : StartsName name := ⟨hdot, fun h => hslash (List.mem_of_head? h)⟩
    exact mention?_ne_none hpass hne hstarts
      ⟨hopening, hbridge, matches_lead_iff.2 hdotted, hname, hclosing⟩ hahead

/-- A script at the root. -/
def rootScript : List Moved := [⟨"env.js", "js/env.js", ⟨"/site/js/env.js"⟩⟩]

/-- The start of an attribute with the script's name in single quotes. -/
def scriptParts (lead : String) : Parts where
  opening := "src".toList ++ [] ++ ['='] ++ [] ++ ['\x27']
  bridge := []
  lead := lead.toList
  name := "env.js".toList
  closing := ['\x27']
  rest := ['>']

theorem reads_scriptParts {lead : String} (h : IsDotted lead.toList) :
    Reads .src "env.js".toList (scriptParts lead) where
  opening := .seq (.seq (.seq (.seq (matches_word_iff.2 (Spelled.refl _)) .done)
    (matches_mark_iff.2 rfl)) .done) (matches_quote_iff.2 ⟨'\x27', rfl, Or.inr rfl⟩)
  bridge := .empty
  lead := matches_lead_iff.2 h
  name := matches_literal_iff.2 (Spelled.refl _)
  closing := matches_quote_iff.2 ⟨'\x27', rfl, Or.inr rfl⟩

/-- Both kinds of segments are taken in front of the script's name. -/
theorem lead_of_mention_of_rootScript : Pass.src ∈ Pass.all ∧ "env.js".toList ≠ [] ∧
    "env.js".toList.head? ≠ some '.' ∧ '/' ∉ "env.js".toList ∧ SegmentRun ".././".toList ∧
    Pass.src.mention? "env.js".toList "src=\x27.././env.js\x27>".toList ≠ none := by
  have hpass : Pass.src ∈ Pass.all := by simp [Pass.all]
  have hrun : SegmentRun ".././".toList := .up (.here .done)
  have hreads := reads_scriptParts (segmentRun_iff.1 hrun).1
  have htext : (scriptParts ".././").text = "src=\x27.././env.js\x27>".toList := by decide +kernel
  refine ⟨hpass, by decide, by decide, by decide, hrun, ?_⟩
  rw [← htext]
  exact (lead_of_mention hpass (by decide) (by decide) (by decide)).2 (scriptParts ".././")
    hreads.opening hreads.bridge (Or.inl hrun) hreads.name hreads.closing
    (by simp [Pass.src, Pass.keeping])

/-- A dot in front of the script's name is taken too, so the reference to a dot file becomes a
reference to the script. -/
theorem update_dotFile :
    Reads .src "env.js".toList (scriptParts ".") ∧
    (scriptParts ".").text = "src=\x27.env.js\x27>".toList ∧
    ¬ SegmentRun (scriptParts ".").lead ∧
    update true rootScript ⟨"/site"⟩ "<script src=\x27.env.js\x27>".toList =
      ⟨"<script src=\x27js/env.js\x27>".toList, true⟩ := by
  refine ⟨reads_scriptParts ((isDotted_cons_dot (by decide)).2 .nil), by decide +kernel, ?_, ?_⟩
  · intro h
    cases h
  · rw [update, inOrder, rootScript, List.mergeSort_singleton]
    decide +kernel

end SiteFolders.Reference
