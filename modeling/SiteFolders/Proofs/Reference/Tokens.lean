import SiteFolders.Proofs.Reference.Words

/-!
# Tokens and gaps

Quotes, parentheses and blanks cut a text into tokens, the longest runs of other characters: none of
them is empty or holds a delimiter (`of_mem_tokens`), and what stands between two of them is not empty
and holds nothing else (`isGap_of_mem_gaps`, `ne_nil_of_mem_gaps`). What stands around tokens are gaps,
one more than there are tokens, and woven together both are the text again (`weave_gaps_tokens`). A
text is taken token by token from its start (`token_induction`), and a word between delimiters is one
of its tokens (`WordAt.tokens_eq`).
-/

namespace SiteFolders.Reference

open SiteFolders.Text Regex

/-! ## Cutting a text -/

/-- Either quote, either parenthesis, or a blank. -/
def isDelimiter (c : Char) : Bool := c == '"' || c == '\x27' || c == '(' || c == ')' || isBlank c

/-- True of a text that does not start with a delimiter. -/
def startsToken (text : List Char) : Bool := text.head?.any fun c => !isDelimiter c

/-- The longest runs of characters that are no delimiters, from left to right. -/
def tokens : List Char → List (List Char)
  | [] => []
  | c :: rest =>
    if isDelimiter c then tokens rest
    else if startsToken rest then (tokens rest).modifyHead (c :: ·)
    else [c] :: tokens rest

/-- The runs of delimiters in front of the tokens and behind the last one. Those at the start and the
end of the text may be empty. -/
def gaps : List Char → List (List Char)
  | [] => [[]]
  | c :: rest =>
    if isDelimiter c then (gaps rest).modifyHead (c :: ·)
    else if startsToken rest then gaps rest
    else [] :: gaps rest

/-- Gaps and tokens in turn. What is written for a token may depend on the gaps around it. -/
def weaveWith (write : List Char → List Char → List Char → List Char) :
    List (List Char) → List (List Char) → List Char
  | before :: after :: gaps, token :: tokens =>
    before ++ (write before token after ++ weaveWith write (after :: gaps) tokens)
  | gaps, _ => gaps.flatten

/-! ## Delimiters -/

theorem isDelimiter_iff {c : Char} : isDelimiter c = true ↔ Delimits c := by
  simp only [isDelimiter, Delimits, Opens, IsQuote, closesLoose, Bool.or_eq_true, beq_iff_eq]
  tauto

/-- True of runs of delimiters. -/
def IsGap (s : List Char) : Prop := ∀ c ∈ s, isDelimiter c = true

theorem IsGap.nil : IsGap [] := by simp [IsGap]

theorem isGap_cons {c : Char} {s : List Char} :
    IsGap (c :: s) ↔ isDelimiter c = true ∧ IsGap s := by
  simp [IsGap]

theorem PlainValue.isDelimiter_eq_false {t : List Char} (h : PlainValue t) {c : Char} (hc : c ∈ t) :
    isDelimiter c = false := by
  have hnot := h.not_delimits hc
  rwa [← isDelimiter_iff, Bool.not_eq_true] at hnot

theorem startsToken_cons {c : Char} {rest : List Char} :
    startsToken (c :: rest) = !isDelimiter c := rfl

/-- True of a text that starts with a delimiter or is empty. -/
theorem startsToken_of_delimits {y : List Char} (h : ∃ k v, y = k :: v ∧ Delimits k) :
    startsToken y = false := by
  obtain ⟨k, v, rfl, hk⟩ := h
  rw [startsToken_cons, isDelimiter_iff.2 hk]
  rfl

/-! ## Gaps in front of a text -/

theorem tokens_gap_append {g : List Char} (hg : IsGap g) (y : List Char) :
    tokens (g ++ y) = tokens y := by
  induction g with
  | nil => rfl
  | cons c g ih =>
    obtain ⟨hc, hg⟩ := isGap_cons.1 hg
    rw [List.cons_append, tokens, if_pos hc, ih hg]

theorem gaps_gap_append {g : List Char} (hg : IsGap g) (y : List Char) :
    gaps (g ++ y) = (gaps y).modifyHead (g ++ ·) := by
  induction g with
  | nil => cases h : gaps y <;> simp [h]
  | cons c g ih =>
    obtain ⟨hc, hg⟩ := isGap_cons.1 hg
    rw [List.cons_append, gaps, if_pos hc, ih hg, List.modifyHead_modifyHead]
    rfl

theorem tokens_of_isGap {g : List Char} (hg : IsGap g) : tokens g = [] := by
  rw [← List.append_nil g, tokens_gap_append hg]
  rfl

theorem gaps_of_isGap {g : List Char} (hg : IsGap g) : gaps g = [g] := by
  rw [← List.append_nil g, gaps_gap_append hg]
  rfl

/-! ## Tokens in front of a text -/

section

variable {t y : List Char} (ht : PlainValue t) (hne : t ≠ []) (hy : startsToken y = false)
include ht hne hy

theorem tokens_plain_append : tokens (t ++ y) = t :: tokens y := by
  induction t with
  | nil => exact absurd rfl hne
  | cons c t ih =>
    have hc := ht.isDelimiter_eq_false List.mem_cons_self
    have ht' : PlainValue t := fun k hk => ht k (List.mem_cons_of_mem _ hk)
    rw [List.cons_append, tokens, if_neg (by simp [hc])]
    cases t with
    | nil => rw [List.nil_append, if_neg (by simp [hy])]
    | cons k t =>
      have hk := ht'.isDelimiter_eq_false List.mem_cons_self
      rw [if_pos (by simp [startsToken_cons, hk]), ih ht' (by simp)]
      rfl

theorem gaps_plain_append : gaps (t ++ y) = [] :: gaps y := by
  induction t with
  | nil => exact absurd rfl hne
  | cons c t ih =>
    have hc := ht.isDelimiter_eq_false List.mem_cons_self
    have ht' : PlainValue t := fun k hk => ht k (List.mem_cons_of_mem _ hk)
    rw [List.cons_append, gaps, if_neg (by simp [hc])]
    cases t with
    | nil => rw [List.nil_append, if_neg (by simp [hy])]
    | cons k t =>
      have hk := ht'.isDelimiter_eq_false List.mem_cons_self
      rw [if_pos (by simp [startsToken_cons, hk]), ih ht' (by simp)]

variable {g : List Char} (hg : IsGap g)
include hg

theorem tokens_token_append : tokens (g ++ (t ++ y)) = t :: tokens y := by
  rw [tokens_gap_append hg, tokens_plain_append ht hne hy]

theorem gaps_token_append : gaps (g ++ (t ++ y)) = g :: gaps y := by
  rw [gaps_gap_append hg, gaps_plain_append ht hne hy]
  simp

end

/-! ## Token by token -/

theorem IsGap.startsToken_eq_false {g : List Char} (h : IsGap g) : startsToken g = false := by
  cases g with
  | nil => rfl
  | cons c g => simp [startsToken_cons, (isGap_cons.1 h).1]

theorem plainValue_single {c : Char} (h : isDelimiter c = false) : PlainValue [c] := by
  refine plainValue_iff.2 fun k hk => ?_
  rw [List.mem_singleton.1 hk, ← isDelimiter_iff, h]
  simp

/-- A text is a run of delimiters, or it starts with a gap and a token. -/
theorem isGap_or_exists_token (text : List Char) : IsGap text ∨ ∃ g t y, text = g ++ (t ++ y) ∧
    IsGap g ∧ PlainValue t ∧ t ≠ [] ∧ startsToken y = false := by
  induction text with
  | nil => exact Or.inl .nil
  | cons c rest ih =>
    -- a character that is no delimiter starts the token of the rest, or is one by itself before a gap
    cases hc : isDelimiter c with
    | true =>
      rcases ih with hgap | ⟨g, t, y, rfl, hg, hrest⟩
      · exact Or.inl (isGap_cons.2 ⟨hc, hgap⟩)
      · exact Or.inr ⟨c :: g, t, y, rfl, isGap_cons.2 ⟨hc, hg⟩, hrest⟩
    | false =>
      right
      have hsingle := plainValue_single hc
      rcases ih with hgap | ⟨g, t, y, rfl, hg, ht, hne, hy⟩
      · exact ⟨[], [c], rest, rfl, .nil, hsingle, by simp, hgap.startsToken_eq_false⟩
      · cases g with
        | nil => exact ⟨[], c :: t, y, rfl, .nil, hsingle.append ht, by simp, hy⟩
        | cons k g =>
          refine ⟨[], [c], k :: g ++ (t ++ y), rfl, .nil, hsingle, by simp, ?_⟩
          simp [startsToken_cons, (isGap_cons.1 hg).1]

/-- Induction over a text token by token. -/
theorem token_induction {motive : List Char → Prop} (gap : ∀ g, IsGap g → motive g)
    (token : ∀ g t y, IsGap g → PlainValue t → t ≠ [] → startsToken y = false → motive y →
      motive (g ++ (t ++ y))) : ∀ text, motive text := by
  intro text
  rcases isGap_or_exists_token text with hgap | ⟨g, t, y, htext, hg, ht, hne, hy⟩
  · exact gap text hgap
  · rw [htext]
    exact token g t y hg ht hne hy (token_induction gap token y)
termination_by text => text.length
decreasing_by
  have hlen := congrArg List.length htext
  have hpos := List.length_pos_iff.2 hne
  simp only [List.length_append] at hlen
  omega

/-- The gaps are one more than the tokens. -/
theorem length_gaps (text : List Char) : (gaps text).length = (tokens text).length + 1 := by
  induction text using token_induction with
  | gap g hg => rw [gaps_of_isGap hg, tokens_of_isGap hg]; rfl
  | token g t y hg ht hne hy ih =>
    rw [gaps_token_append ht hne hy hg, tokens_token_append ht hne hy hg]
    simp [ih]

theorem gaps_ne_nil (text : List Char) : gaps text ≠ [] := by
  intro h
  have hlen := length_gaps text
  simp [h] at hlen

/-- Tokens are not empty and hold no delimiters. -/
theorem of_mem_tokens {text t : List Char} (h : t ∈ tokens text) : t ≠ [] ∧ PlainValue t := by
  induction text using token_induction with
  | gap g hg => simp [tokens_of_isGap hg] at h
  | token g u y hg hu hne hy ih =>
    rw [tokens_token_append hu hne hy hg] at h
    rcases List.mem_cons.1 h with rfl | h
    · exact ⟨hne, hu⟩
    · exact ih h

/-- Gaps are made of delimiters. -/
theorem isGap_of_mem_gaps {text g : List Char} (h : g ∈ gaps text) : IsGap g := by
  induction text using token_induction with
  | gap g' hg =>
    rw [gaps_of_isGap hg] at h
    rwa [List.mem_singleton.1 h]
  | token g' t y hg ht hne hy ih =>
    rw [gaps_token_append ht hne hy hg] at h
    rcases List.mem_cons.1 h with rfl | h
    · exact hg
    · exact ih h

theorem ne_nil_of_mem_dropLast {text : List Char} (h : startsToken text = false) :
    ∀ g ∈ (gaps text).dropLast, g ≠ [] := by
  induction text using token_induction with
  | gap g hg => simp [gaps_of_isGap hg]
  | token g t y hg ht hne hy ih =>
    rw [gaps_token_append ht hne hy hg, List.dropLast_cons_of_ne_nil (gaps_ne_nil y)]
    intro g' hg'
    rcases List.mem_cons.1 hg' with rfl | hg'
    · rintro rfl
      obtain ⟨c, t, rfl⟩ := List.exists_cons_of_ne_nil hne
      simp [startsToken_cons, ht.isDelimiter_eq_false List.mem_cons_self] at h
    · exact ih hy g' hg'

/-- Gaps between two tokens are not empty, so no token can be longer. -/
theorem ne_nil_of_mem_gaps {text : List Char} : ∀ g ∈ (gaps text).tail.dropLast, g ≠ [] := by
  rcases isGap_or_exists_token text with hgap | ⟨g, t, y, rfl, hg, ht, hne, hy⟩
  · simp [gaps_of_isGap hgap]
  · rw [gaps_token_append ht hne hy hg, List.tail_cons]
    exact ne_nil_of_mem_dropLast hy

/-- A text that starts with a delimiter starts with its first gap. -/
theorem exists_head_gap {k : Char} {v : List Char} {g : List Char} {gs : List (List Char)}
    (h : startsToken (k :: v) = false) (hgs : gaps (k :: v) = g :: gs) : ∃ v', g = k :: v' := by
  have hk : isDelimiter k = true := by simpa [startsToken_cons] using h
  obtain ⟨g', gs', hgs'⟩ := List.exists_cons_of_ne_nil (gaps_ne_nil v)
  rw [gaps, if_pos hk, hgs'] at hgs
  exact ⟨g', (List.cons.inj hgs).1.symm⟩

/-- A gap at the start of a text is what the text starts with. -/
theorem exists_of_head_gap {y g : List Char} {gs : List (List Char)} (hgs : gaps y = g :: gs) :
    ∃ z, y = g ++ z := by
  rcases isGap_or_exists_token y with hgap | ⟨g', t, z, rfl, hg, ht, hne, hz⟩
  · rw [gaps_of_isGap hgap] at hgs
    exact ⟨[], by rw [(List.cons.inj hgs).1, List.append_nil]⟩
  · rw [gaps_token_append ht hne hz hg] at hgs
    exact ⟨t ++ z, by rw [(List.cons.inj hgs).1]⟩

/-- Woven together, the gaps and the tokens of a text are the text. -/
theorem weave_gaps_tokens (text : List Char) :
    weaveWith (fun _ token _ => token) (gaps text) (tokens text) = text := by
  induction text using token_induction with
  | gap g hg => simp [gaps_of_isGap hg, tokens_of_isGap hg, weaveWith]
  | token g t y hg ht hne hy ih =>
    rw [gaps_token_append ht hne hy hg, tokens_token_append ht hne hy hg]
    obtain ⟨g', gs, hgs⟩ := List.exists_cons_of_ne_nil (gaps_ne_nil y)
    rw [hgs] at ih ⊢
    rw [weaveWith, ih]

/-! ## Texts put together -/

/-- Two texts that have no token in common where they meet. -/
def Parted (x z : List Char) : Prop :=
  startsToken z = false ∨ ∀ c, x.getLast? = some c → isDelimiter c = true

/-- What is left of a text after its first token is parted from what it was parted from. -/
theorem Parted.of_token {g t y z : List Char} (ht : PlainValue t) (hne : t ≠ [])
    (hy : startsToken y = false) (h : Parted (g ++ (t ++ y)) z) :
    startsToken (y ++ z) = false ∧ Parted y z := by
  cases y with
  | nil =>
    -- the token reaches up to where the texts meet, so the second text starts with a gap
    have hz : startsToken z = false := by
      refine h.resolve_right fun hlast => ?_
      have hmem := List.getLast_mem hne
      have hdelimiter := hlast (t.getLast hne) (by
        rw [List.append_nil, List.getLast?_append_of_ne_nil _ hne, List.getLast?_eq_some_getLast])
      simp [ht.isDelimiter_eq_false hmem] at hdelimiter
    exact ⟨hz, Or.inl hz⟩
  | cons k y =>
    refine ⟨hy, h.imp_right fun hlast c hc => hlast c ?_⟩
    rwa [List.getLast?_append_of_ne_nil _ (by simp), List.getLast?_append_of_ne_nil _ (by simp)]

theorem tokens_append {x z : List Char} (h : Parted x z) :
    tokens (x ++ z) = tokens x ++ tokens z := by
  induction x using token_induction with
  | gap g hg => rw [tokens_gap_append hg, tokens_of_isGap hg, List.nil_append]
  | token g t y hg ht hne hy ih =>
    obtain ⟨hyz, hparted⟩ := h.of_token ht hne hy
    rw [List.append_assoc, List.append_assoc, tokens_token_append ht hne hyz hg,
      tokens_token_append ht hne hy hg, ih hparted, List.cons_append]

/-- Where two texts meet, the last gap of the first one goes on with the first gap of the other. -/
theorem gaps_append {x z : List Char} (h : Parted x z) : gaps (x ++ z) =
    (gaps x).dropLast ++ (gaps z).modifyHead ((gaps x).getLast (gaps_ne_nil x) ++ ·) := by
  induction x using token_induction with
  | gap g hg =>
    simp only [gaps_gap_append hg, gaps_of_isGap hg]
    simp
  | token g t y hg ht hne hy ih =>
    obtain ⟨hyz, hparted⟩ := h.of_token ht hne hy
    have hgaps := gaps_token_append ht hne hy hg
    rw [List.append_assoc, List.append_assoc, gaps_token_append ht hne hyz hg, ih hparted]
    simp only [hgaps, List.dropLast_cons_of_ne_nil (gaps_ne_nil y), List.getLast_cons (gaps_ne_nil y),
      List.cons_append]

/-! ## Words -/

section

variable {x t y : List Char} (h : WordAt x t y)
include h

theorem WordAt.isDelimiter_of_getLast? {c : Char} (hc : x.getLast? = some c) : isDelimiter c = true := by
  obtain ⟨u, d, rfl, hd⟩ := h.before
  obtain rfl : d = c := by simpa using hc
  exact isDelimiter_iff.2 hd

/-- A word between delimiters is a token. -/
theorem WordAt.tokens_eq : tokens (x ++ (t ++ y)) = tokens x ++ t :: tokens y := by
  have hy := startsToken_of_delimits h.after
  rw [tokens_append (Or.inr fun c hc => h.isDelimiter_of_getLast? hc),
    tokens_plain_append h.plain h.ne_nil hy]

theorem WordAt.gaps_eq : gaps (x ++ (t ++ y)) = gaps x ++ gaps y := by
  have hy := startsToken_of_delimits h.after
  rw [gaps_append (Or.inr fun c hc => h.isDelimiter_of_getLast? hc),
    gaps_plain_append h.plain h.ne_nil hy, List.modifyHead_cons, List.append_nil, List.append_cons,
    List.dropLast_append_getLast]

end

/-! ## Ends of texts -/

/-- What stands at the end of a text and holds no delimiter is the end of its last token, and there is
nothing behind that one. -/
theorem exists_last_token {o text : List Char} (ho : PlainValue o) (hne : o ≠ [])
    (h : o <:+ text) : (∃ ts t, tokens text = ts ++ [t] ∧ o <:+ t) ∧ ∃ gs, gaps text = gs ++ [[]] := by
  have hnot : ∀ {c}, isDelimiter c = true → c ∉ o := by
    intro c hc hmem
    simp [ho.isDelimiter_eq_false hmem] at hc
  induction text using token_induction with
  | gap g hg =>
    obtain ⟨c, hc⟩ := List.exists_mem_of_ne_nil o hne
    exact absurd hc (hnot (hg c (h.mem hc)))
  | token g t y hg ht hne' hy ih =>
    rw [tokens_token_append ht hne' hy hg, gaps_token_append ht hne' hy hg]
    cases y with
    | nil =>
      rw [List.append_nil] at h
      refine ⟨⟨[], t, rfl, suffix_of_append h fun c hc => ?_⟩, [g], rfl⟩
      exact hnot (hg c (List.mem_of_getLast? hc))
    | cons k y =>
      have hk : isDelimiter k = true := by simpa [startsToken_cons] using hy
      have hsplit : o <:+ (g ++ (t ++ [k])) ++ y := by simpa using h
      have hbehind := suffix_of_append hsplit fun c hc => by
        obtain rfl : k = c := by simpa using hc
        exact hnot hk
      obtain ⟨⟨ts, t', hts, ho'⟩, gs, hgs⟩ := ih (hbehind.trans (List.suffix_cons k y))
      exact ⟨⟨t :: ts, t', by rw [hts]; rfl, ho'⟩, g :: gs, by rw [hgs]; rfl⟩

section

variable {k g : List Char} (hg : IsGap g)
include hg

theorem tokens_append_gap : tokens (k ++ g) = tokens k := by
  rw [tokens_append (Or.inl hg.startsToken_eq_false), tokens_of_isGap hg, List.append_nil]

/-- A gap that comes after a token takes the place of the empty one. -/
theorem gaps_append_gap {gs : List (List Char)} (hk : gaps k = gs ++ [[]]) :
    gaps (k ++ g) = gs ++ [g] := by
  rw [gaps_append (Or.inl hg.startsToken_eq_false), gaps_of_isGap hg]
  simp [hk]

end

end SiteFolders.Reference
