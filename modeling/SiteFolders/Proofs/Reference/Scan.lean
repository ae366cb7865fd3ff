import SiteFolders.Proofs.Reference.LooseMentions
import SiteFolders.Proofs.Reference.Preference

/-!
# Scanning for loose mentions

The loose pass can be carried out by one loop over the bytes of a text. Each round searches from a
position on for the preferred reading at the first place that has one, looks at the character after
it, and either writes the mention anew or goes on behind its first character (`round?`). An expression
that looks ahead can say the same without a loop of its own (`Pass.lookingAhead`).

Both come to the same for every name (`scan_loose`). A shorter reading at a place where the preferred one
is not followed by what closes a mention is not followed by it either: what comes after the shorter
one is a dot or a slash, since the name repeats what stands between the two (`dot_of_overlap`).
-/

namespace SiteFolders.Reference

open SiteFolders.Text Regex

/-! ## Looking ahead -/

/-- The loose pass with the character after a mention as a part of the expression. -/
def Pass.lookingAhead : Pass :=
  { Pass.loose with closing := .edge fun _ next => next.any closesLoose, ahead := none }

/-- The readings of an expression that looks ahead are those which are followed by what closes a
mention. -/
theorem hits_lookingAhead (name text : List Char) :
    Pass.lookingAhead.hits name text = (Pass.loose.hits name text).filter Pass.loose.accepts := by
  have hahead : ∀ t, Pass.lookingAhead.closing.lengths none t =
      if t.head?.any closesLoose = true then [0] else [] := fun _ => rfl
  have hplain : ∀ t, Pass.loose.closing.lengths none t = [0] := fun _ => rfl
  have haccepts : ∀ hit, Pass.loose.accepts hit = hit.after.any closesLoose := fun _ => rfl
  simp only [Pass.hits, List.filter_flatMap, hahead, hplain, List.head?_drop]
  refine List.flatMap_congr fun a _ => List.flatMap_congr fun b _ => List.flatMap_congr fun c _ =>
    List.flatMap_congr fun d _ => ?_
  by_cases hcloses : text[a + b + c + d]?.any closesLoose = true
  · rw [if_pos hcloses, List.map_singleton, List.map_singleton, List.filter_singleton, haccepts,
      Nat.add_zero, hcloses]
    rfl
  · have hnot : text[a + b + c + d]?.any closesLoose = false := by simpa using hcloses
    rw [if_neg hcloses, List.map_singleton, List.filter_singleton, haccepts, Nat.add_zero, hnot]
    rfl

/-- Where a text is shifted against itself by dots and slashes, what comes after it is one of them. -/
theorem dot_of_overlap {x r v : List Char} {k : Char} (hne : x ≠ [])
    (hx : ∀ c ∈ x, c = '.' ∨ c = '/') (name : List Char) (h : x ++ (name ++ r) = name ++ k :: v) :
    k = '.' ∨ k = '/' := by
  induction hlen : name.length using Nat.strong_induction_on generalizing name with
  | _ n ih =>
    subst hlen
    rcases List.append_eq_append_iff.1 h with ⟨y, rfl, hy⟩ | ⟨y, rfl, hy⟩
    · -- the name starts with the shift, and what is left of it overlaps in the same way
      rw [List.append_assoc] at hy
      have hpos := List.length_pos_iff.2 hne
      exact ih y.length (by rw [List.length_append]; omega) y hy rfl
    · have hmem : k ∈ name ++ y := by
        cases y with
        | nil =>
          obtain ⟨c, s, hs⟩ := List.exists_cons_of_ne_nil hne
          rw [List.append_nil] at hs
          rw [hs, List.nil_append] at hy
          obtain ⟨rfl, -⟩ := List.cons.inj hy
          simp [hs]
        | cons c y =>
          obtain ⟨rfl, -⟩ := List.cons.inj hy
          simp
      exact hx k hmem

/-- No loose mention is found by a reading that is not the preferred one. -/
theorem not_accepted_of_preferredTo {name : List Char} {p q : Parts} (hp : Reads .loose name p)
    (hq : Reads .loose name q) (htext : q.text = p.text) (hpreferred : p.PreferredTo q) :
    Pass.loose.accepts (q.hit .loose) = false := by
  obtain ⟨d, hpo, -⟩ := matches_one_iff.1 hp.opening
  obtain ⟨d', hqo, -⟩ := matches_one_iff.1 hq.opening
  have hlen : q.lead.length < p.lead.length := by
    rcases hpreferred with h | ⟨-, h⟩
    · simp [hpo, hqo] at h
    · exact h
  simp only [Parts.text, hpo, hqo, matches_empty_iff.1 hp.bridge, matches_empty_iff.1 hq.bridge,
    matches_empty_iff.1 hp.closing, matches_empty_iff.1 hq.closing, eq_of_nameRegex_loose hp.name,
    eq_of_nameRegex_loose hq.name, List.nil_append, List.singleton_append, List.cons.injEq] at htext
  -- the other reading starts its name `x` earlier, among the leading dots and slashes
  obtain ⟨x, hx, hshift⟩ : ∃ x, p.lead = q.lead ++ x ∧ name ++ q.rest = x ++ (name ++ p.rest) := by
    rcases List.append_eq_append_iff.1 htext.2 with ⟨x, hx, hshift⟩ | ⟨x, hx, -⟩
    · exact ⟨x, hx, hshift⟩
    · simp only [hx, List.length_append] at hlen
      omega
  have hne : x ≠ [] := by
    rintro rfl
    simp [hx] at hlen
  rw [Bool.eq_false_iff]
  intro haccepts
  cases hrest : q.rest with
  | nil => simp [Pass.accepts, Pass.loose, Parts.hit, hrest] at haccepts
  | cons k v =>
    have hcloses : closesLoose k = true := by
      simpa [Pass.accepts, Pass.loose, Parts.hit, hrest] using haccepts
    rw [hrest] at hshift
    -- the name is the same text both times, so the character behind the earlier one is a dot or a
    -- slash, which closes no mention
    have hdots : ∀ c ∈ x, c = '.' ∨ c = '/' :=
      fun c hc => mem_of_matches_lead hp.lead c (by simp [hx, hc])
    rcases dot_of_overlap hne hdots name hshift.symm with rfl | rfl
    · exact absurd hcloses (by decide)
    · exact absurd hcloses (by decide)

/-- Where the preferred reading is not accepted, no reading is. -/
theorem not_accepted_of_firstHit? {name text : List Char} {hit : Hit}
    (hfirst : Pass.loose.firstHit? name text = some hit) (hrejected : Pass.loose.accepts hit = false) :
    ∀ other ∈ Pass.loose.hits name text, Pass.loose.accepts other = false := by
  have hpass : Pass.loose ∈ Pass.all := by simp [Pass.all]
  obtain ⟨p, rfl, rfl, hp⟩ := (firstHit?_eq_some_iff hpass).1 hfirst
  intro other hother
  rw [hits_eq, List.mem_map] at hother
  obtain ⟨q, hq, rfl⟩ := hother
  obtain ⟨htext, hreads⟩ := (mem_readings_iff hpass).1 hq
  rcases hp.best q htext hreads with rfl | hpreferred
  · exact hrejected
  · exact not_accepted_of_preferredTo hp.toReads hreads htext hpreferred

/-- Looking ahead finds what the loose pass finds. -/
theorem mention?_lookingAhead (name text : List Char) :
    Pass.lookingAhead.mention? name text = Pass.loose.mention? name text := by
  have hmention : Pass.lookingAhead.mention? name text =
      ((Pass.loose.hits name text).filter Pass.loose.accepts).head? := by
    rw [← hits_lookingAhead, Pass.mention?, Pass.firstHit?]
    cases (Pass.lookingAhead.hits name text).head? with
    | none => rfl
    | some hit => rfl
  rw [hmention, Pass.mention?, Pass.firstHit?]
  cases hhits : Pass.loose.hits name text with
  | nil => rfl
  | cons first others =>
    have hfirst : Pass.loose.firstHit? name text = some first := by simp [Pass.firstHit?, hhits]
    cases haccepts : Pass.loose.accepts first with
    | true => simp [haccepts, Option.filter]
    | false =>
      have hnone := not_accepted_of_firstHit? hfirst haccepts
      rw [hhits] at hnone
      rw [List.filter_eq_nil_iff.2 fun hit hhit => by simp [hnone hit hhit]]
      simp [haccepts, Option.filter]

/-! ## Bytes of a text -/

@[simp]
theorem byteLength_nil : byteLength [] = 0 := rfl

@[simp]
theorem byteLength_cons (c : Char) (text : List Char) :
    byteLength (c :: text) = c.utf8Size + byteLength text := rfl

@[simp]
theorem byteLength_append (s t : List Char) : byteLength (s ++ t) = byteLength s + byteLength t := by
  induction s with
  | nil => simp
  | cons c s ih => simp [ih, Nat.add_assoc]

theorem byteLength_pos {s : List Char} (h : s ≠ []) : 0 < byteLength s := by
  obtain ⟨c, t, rfl⟩ := List.exists_cons_of_ne_nil h
  have := c.utf8Size_pos
  simp only [byteLength_cons]
  omega

/-- A text in front of a byte offset and from there on; none within a character and behind the
text. -/
def splitAt? : List Char → Nat → Option (List Char × List Char)
  | text, 0 => some ([], text)
  | [], _ + 1 => none
  | c :: rest, n + 1 =>
    if c.utf8Size ≤ n + 1 then
      (splitAt? rest (n + 1 - c.utf8Size)).map fun parts => (c :: parts.1, parts.2)
    else none

/-- A text is split where the bytes of its first part end. -/
theorem splitAt?_append (s t : List Char) : splitAt? (s ++ t) (byteLength s) = some (s, t) := by
  induction s with
  | nil => simp [splitAt?]
  | cons c s ih =>
    have hpos := c.utf8Size_pos
    obtain ⟨n, hn⟩ := Nat.exists_eq_add_of_lt (Nat.add_pos_left hpos (byteLength s))
    rw [List.cons_append, byteLength_cons, hn, Nat.zero_add, splitAt?, if_pos (by omega)]
    have hrest : n + 1 - c.utf8Size = byteLength s := by omega
    rw [hrest, ih]
    rfl

/-- The text from a byte offset on. -/
def sliceFrom? (text : List Char) (start : Nat) : Option (List Char) :=
  (splitAt? text start).map Prod.snd

/-- The text between two byte offsets. -/
def slice? (text : List Char) (start stop : Nat) : Option (List Char) :=
  if start ≤ stop then
    (sliceFrom? text start).bind fun rest => (splitAt? rest (stop - start)).map Prod.fst
  else none

theorem sliceFrom?_append (s t : List Char) : sliceFrom? (s ++ t) (byteLength s) = some t := by
  rw [sliceFrom?, splitAt?_append]
  rfl

theorem slice?_append (s t u : List Char) :
    slice? (s ++ (t ++ u)) (byteLength s) (byteLength s + byteLength t) = some t := by
  rw [slice?, if_pos (Nat.le_add_right _ _), sliceFrom?_append, Option.bind_some,
    Nat.add_sub_cancel_left, splitAt?_append]
  rfl

/-! ## The loop -/

/-- The state of the loop: the new text so far, how far the old text has been written, where the next
search starts, and whether a mention has been written. -/
structure Scan where
  written : List Char := []
  copied : Nat := 0
  position : Nat := 0
  changed : Bool := false

/-- What a round leads to. -/
inductive Round where
  | done
  | next (s : Scan)

/-- The first place from an offset on where something is found. -/
def search (find : List Char → Option Hit) : Nat → List Char → Option (Nat × Hit)
  | offset, [] => (find []).map (offset, ·)
  | offset, c :: rest =>
    match find (c :: rest) with
    | some hit => some (offset, hit)
    | none => search find (offset + c.utf8Size) rest

section

variable (find : List Char → Option Hit) (boundary : Char → Bool) (render : Hit → List Char)
  (text : List Char)

/-- One round of the loop; none if it slices the text within a character. -/
def Scan.round? (s : Scan) : Option Round :=
  if byteLength text < s.position then some .done
  else do
    let rest ← sliceFrom? text s.position
    match search find s.position rest with
    | none => return .done
    | some (start, hit) =>
      let here ← sliceFrom? text start
      let stop := start + byteLength (here.take hit.length)
      let after ← sliceFrom? text stop
      if after.head?.any boundary then
        let kept ← slice? text s.copied start
        return .next ⟨s.written ++ kept ++ render hit, stop, stop, true⟩
      else
        return .next { s with position := start + (here.head?.map Char.utf8Size).getD 1 }

/-- What the loop returns in the end; the outer option is none if it slices within a character. -/
def Scan.finish? (s : Scan) : Option (Option (List Char)) :=
  if s.changed then (sliceFrom? text s.copied).map fun rest => some (s.written ++ rest)
  else some none

end

theorem search_eq_none {find : List Char → Option Hit} {rest : List Char} {offset : Nat}
    (h : search find offset rest = none) : ∀ x, x <:+ rest → find x = none := by
  induction rest generalizing offset with
  | nil =>
    intro x hx
    rw [List.suffix_nil.1 hx]
    simpa [search] using h
  | cons c rest ih =>
    rw [search] at h
    split at h
    · simp at h
    · next hnone =>
      intro x hx
      rcases List.suffix_cons_iff.1 hx with rfl | hx
      · exact hnone
      · exact ih h x hx

theorem search_eq_some {find : List Char → Option Hit} {rest : List Char} {offset start : Nat}
    {hit : Hit} (h : search find offset rest = some (start, hit)) :
    ∃ y x, rest = y ++ x ∧ start = offset + byteLength y ∧ find x = some hit ∧
      ∀ z, z <:+ y → z ≠ [] → find (z ++ x) = none := by
  induction rest generalizing offset with
  | nil =>
    rw [search, Option.map_eq_some_iff] at h
    obtain ⟨hit', hfind, heq⟩ := h
    obtain ⟨rfl, rfl⟩ := Prod.mk.inj heq
    exact ⟨[], [], rfl, rfl, hfind, fun z hz hne => absurd (List.suffix_nil.1 hz) hne⟩
  | cons c rest ih =>
    rw [search] at h
    split at h
    · next hit' hfind =>
      obtain ⟨rfl, rfl⟩ := Prod.mk.inj (Option.some.inj h)
      exact ⟨[], c :: rest, rfl, rfl, hfind, fun z hz hne => absurd (List.suffix_nil.1 hz) hne⟩
    · next hnone =>
      obtain ⟨y, x, rfl, rfl, hfind, hbefore⟩ := ih h
      refine ⟨c :: y, x, rfl, by simp [Nat.add_assoc], hfind, fun z hz hne => ?_⟩
      rcases List.suffix_cons_iff.1 hz with rfl | hz
      · exact hnone
      · exact hbefore z hz hne

/-! ## Loose mentions -/

/-- A reading takes characters off a text, and what it is followed by comes after them. -/
theorem firstHit?_loose {name text : List Char} {hit : Hit}
    (h : Pass.loose.firstHit? name text = some hit) :
    ∃ taken rest, text = taken ++ rest ∧ taken ≠ [] ∧ hit.length = taken.length ∧
      hit.after = rest.head? := by
  obtain ⟨p, rfl, rfl, hp⟩ := (firstHit?_eq_some_iff (by simp [Pass.all])).1 h
  obtain ⟨d, hopening, -⟩ := matches_one_iff.1 hp.opening
  refine ⟨p.mentionText, p.rest, p.text_eq_mentionText, by simp [Parts.mentionText, hopening], ?_, rfl⟩
  simp only [Parts.hit, Parts.mentionText, List.length_append]
  omega

namespace Scan

/-- One round of the loop for loose mentions. -/
abbrev looseRound? (name reference text : List Char) (s : Scan) : Option Round :=
  s.round? (Pass.loose.firstHit? name) closesLoose (Pass.loose.style.render · reference) text

/-- What holds of the states that the loop comes to. The text is made of what has been written, what
has been passed over since then, and what is left, and the pieces of what has been written are what
the loose pass cuts it into. -/
structure Follows (name reference text : List Char) (s : Scan) (front passed rest : List Char)
    (pieces : List Piece) : Prop where
  split : text = front ++ (passed ++ rest)
  copied : s.copied = byteLength front
  position : s.position = byteLength front + byteLength passed
  cut : cut (Pass.loose.mention? name) text =
    pieces ++ (passed.map .kept ++ Reference.cut (Pass.loose.mention? name) rest)
  written : s.written = pieces.flatMap (Piece.write Pass.loose.style reference)
  changed : s.changed = pieces.any Piece.isMention

theorem follows_start (name reference text : List Char) :
    Follows name reference text {} [] [] text [] :=
  ⟨rfl, rfl, rfl, rfl, rfl, rfl⟩

theorem any_isMention_kept (cs : List Char) : (cs.map Piece.kept).any Piece.isMention = false := by
  simp [Piece.isMention]

theorem mention?_of_firstHit?_eq_none {pass : Pass} {name text : List Char}
    (h : pass.firstHit? name text = none) : pass.mention? name text = none := by
  rw [Pass.mention?, h]
  rfl

namespace Follows

variable {name reference text : List Char} {s : Scan} {front passed rest : List Char}
  {pieces : List Piece} (h : Follows name reference text s front passed rest pieces)
include h

/-- What the loop returns when nothing is left to be found is what the loose pass writes. -/
theorem finish?_eq (hnone : ∀ x, x <:+ rest → Pass.loose.firstHit? name x = none) :
    s.finish? text = some (Pass.loose.replace? name reference text) := by
  have hrest : Reference.cut (Pass.loose.mention? name) rest = rest.map .kept := by
    have hmention : ∀ x, x <:+ rest → x ≠ [] → Pass.loose.mention? name (x ++ []) = none := by
      intro x hx _
      rw [List.append_nil]
      exact mention?_of_firstHit?_eq_none (hnone x hx)
    have hcut := cut_append_of_none hmention
    rw [List.append_nil] at hcut
    rw [hcut, Reference.cut, List.append_nil]
  have hcut : Reference.cut (Pass.loose.mention? name) text =
      pieces ++ (passed ++ rest).map .kept := by
    rw [h.cut, hrest, List.map_append]
  have hwrite : (pieces ++ (passed ++ rest).map Piece.kept).flatMap
      (Piece.write Pass.loose.style reference) = s.written ++ (passed ++ rest) := by
    rw [List.flatMap_append, flatMap_write_kept, h.written]
  have hslice : sliceFrom? text s.copied = some (passed ++ rest) := by
    rw [h.split, h.copied, sliceFrom?_append]
  simp only [finish?, Pass.replace?, hcut, hwrite, List.any_append, any_isMention_kept, Bool.or_false,
    ← h.changed, hslice]
  split <;> rfl

theorem position_le : s.position ≤ byteLength text := by
  rw [h.position, h.split]
  simp only [byteLength_append]
  omega

/-- A round that finds nothing ends the loop. -/
theorem round?_of_none (hsearch : search (Pass.loose.firstHit? name) s.position rest = none) :
    s.looseRound? name reference text = some .done := by
  have hslice : sliceFrom? text s.position = some rest := by
    rw [h.split, h.position, ← byteLength_append, ← List.append_assoc, sliceFrom?_append]
  simp only [looseRound?, round?, if_neg (Nat.not_lt.2 h.position_le), hslice, hsearch,
    Option.bind_eq_bind, Option.bind_some]
  rfl

end Follows

section

variable {name reference text : List Char} {s : Scan} {front passed y taken after : List Char}
  {pieces : List Piece} {hit : Hit}
  (h : Follows name reference text s front passed (y ++ (taken ++ after)) pieces)
  (hfind : search (Pass.loose.firstHit? name) s.position (y ++ (taken ++ after)) =
    some (s.position + byteLength y, hit))
  (hlength : hit.length = taken.length)
include h hfind hlength

/-- A round that finds a reading looks at the character after it. -/
theorem round?_of_some : s.looseRound? name reference text =
    if after.head?.any closesLoose then
      some (.next ⟨s.written ++ (passed ++ y) ++ Pass.loose.style.render hit reference,
        s.position + byteLength y + byteLength taken, s.position + byteLength y + byteLength taken,
        true⟩)
    else some (.next { s with
      position := s.position + byteLength y + ((taken ++ after).head?.map Char.utf8Size).getD 1 }) := by
  have htext : text = front ++ (passed ++ (y ++ (taken ++ after))) := h.split
  have hstart : s.position + byteLength y = byteLength (front ++ (passed ++ y)) := by
    rw [h.position, byteLength_append, byteLength_append, Nat.add_assoc]
  have hrest : sliceFrom? text s.position = some (y ++ (taken ++ after)) := by
    rw [htext, h.position, ← byteLength_append, ← List.append_assoc, sliceFrom?_append]
  have hhere : sliceFrom? text (s.position + byteLength y) = some (taken ++ after) := by
    have hparts : text = (front ++ (passed ++ y)) ++ (taken ++ after) := by simp [htext]
    rw [hstart, hparts, sliceFrom?_append]
  have hafter : sliceFrom? text (s.position + byteLength y + byteLength taken) = some after := by
    have hparts : text = (front ++ (passed ++ y) ++ taken) ++ after := by simp [htext]
    rw [hstart, ← byteLength_append, hparts, sliceFrom?_append]
  have hkept : slice? text s.copied (s.position + byteLength y) = some (passed ++ y) := by
    have hparts : text = front ++ ((passed ++ y) ++ (taken ++ after)) := by simp [htext]
    rw [hstart, h.copied, byteLength_append, hparts, slice?_append]
  simp only [looseRound?, round?, if_neg (Nat.not_lt.2 h.position_le), hrest, hfind, hhere, hlength,
    List.take_left, hafter, hkept, Option.bind_eq_bind, Option.bind_some]
  rfl

end

section

variable {name reference text : List Char} {s : Scan} {front passed y : List Char}
  {pieces : List Piece} {hit : Hit}

/-- What the text is cut into stays the same where nothing is found in front of a place. -/
theorem cut_passed {rest : List Char}
    (h : Follows name reference text s front passed (y ++ rest) pieces)
    (hbefore : ∀ z, z <:+ y → z ≠ [] → Pass.loose.firstHit? name (z ++ rest) = none) :
    Reference.cut (Pass.loose.mention? name) text = pieces ++
      ((passed ++ y).map .kept ++ Reference.cut (Pass.loose.mention? name) rest) := by
  rw [h.cut, cut_append_of_none fun z hz hz' => mention?_of_firstHit?_eq_none (hbefore z hz hz'),
    List.map_append, List.append_assoc]

/-- The state after a mention has been written: the next search starts behind it. -/
theorem follows_written {taken after : List Char}
    (h : Follows name reference text s front passed (y ++ (taken ++ after)) pieces)
    (hbefore : ∀ z, z <:+ y → z ≠ [] → Pass.loose.firstHit? name (z ++ (taken ++ after)) = none)
    (hne : taken ≠ []) (hlength : hit.length = taken.length)
    (hmention : Pass.loose.mention? name (taken ++ after) = some hit) :
    Follows name reference text
      ⟨s.written ++ (passed ++ y) ++ Pass.loose.style.render hit reference,
        s.position + byteLength y + byteLength taken, s.position + byteLength y + byteLength taken,
        true⟩
      (front ++ (passed ++ (y ++ taken))) [] after
      (pieces ++ ((passed ++ y).map .kept ++ [.mention hit taken])) where
  split := by simp [h.split]
  copied := by
    simp only [h.position, byteLength_append]
    omega
  position := by
    simp only [h.position, byteLength_append, byteLength_nil]
    omega
  cut := by
    have hpos := List.length_pos_iff.2 hne
    have hfirst := cut_of_find (by simp [hne]) (by omega) hmention
    rw [hlength, List.take_left, List.drop_left] at hfirst
    rw [cut_passed h hbefore, hfirst]
    simp
  written := by
    rw [List.flatMap_append, List.flatMap_append, flatMap_write_kept, ← h.written]
    simp [Piece.write]
  changed := by simp [Piece.isMention]

/-- The state after a reading that is not followed by what closes a mention: the next search starts
behind its first character. -/
theorem follows_passed {c : Char} {rest : List Char}
    (h : Follows name reference text s front passed (y ++ c :: rest) pieces)
    (hbefore : ∀ z, z <:+ y → z ≠ [] → Pass.loose.firstHit? name (z ++ c :: rest) = none)
    (hmention : Pass.loose.mention? name (c :: rest) = none) :
    Follows name reference text { s with position := s.position + byteLength y + c.utf8Size }
      front (passed ++ (y ++ [c])) rest pieces where
  split := by simp [h.split]
  copied := h.copied
  position := by
    simp only [h.position, byteLength_append, byteLength_cons, byteLength_nil]
    omega
  cut := by
    rw [cut_passed h hbefore, cut_of_none hmention]
    simp
  written := h.written
  changed := h.changed

end

namespace Follows

variable {name reference text : List Char} {s : Scan} {front passed rest : List Char}
  {pieces : List Piece} (h : Follows name reference text s front passed rest pieces)
include h

/-- A round ends the loop with what the loose pass writes, or goes on behind the position. -/
theorem round :
    (s.looseRound? name reference text = some .done ∧
      s.finish? text = some (Pass.loose.replace? name reference text)) ∨
    ∃ s', s.looseRound? name reference text = some (.next s') ∧ s.position < s'.position ∧
      ∃ front passed rest pieces, Follows name reference text s' front passed rest pieces := by
  cases hsearch : search (Pass.loose.firstHit? name) s.position rest with
  | none => exact Or.inl ⟨h.round?_of_none hsearch, h.finish?_eq (search_eq_none hsearch)⟩
  | some found =>
    obtain ⟨start, hit⟩ := found
    right
    obtain ⟨y, x, rfl, rfl, hfind, hbefore⟩ := search_eq_some hsearch
    obtain ⟨taken, after, rfl, hne, hlength, hafter⟩ := firstHit?_loose hfind
    have hround := round?_of_some h hsearch hlength
    have haccepts : Pass.loose.accepts hit = after.head?.any closesLoose := by
      rw [← hafter]
      rfl
    by_cases hcloses : after.head?.any closesLoose = true
    · -- the mention is written
      rw [if_pos hcloses] at hround
      have hpos := byteLength_pos hne
      have hmention : Pass.loose.mention? name (taken ++ after) = some hit := by
        rw [Pass.mention?, hfind, Option.filter_some, if_pos (haccepts.trans hcloses)]
      exact ⟨_, hround, by dsimp only; omega, _, _, _, _,
        follows_written h hbefore hne hlength hmention⟩
    · -- the first character of the reading is passed over
      rw [if_neg hcloses] at hround
      obtain ⟨c, taken, rfl⟩ := List.exists_cons_of_ne_nil hne
      simp only [List.cons_append, List.head?_cons, Option.map_some, Option.getD_some] at hround
      have hpos := c.utf8Size_pos
      have hmention : Pass.loose.mention? name (c :: (taken ++ after)) = none := by
        have hnot : ¬ Pass.loose.accepts hit = true := by rwa [haccepts]
        rw [← List.cons_append, Pass.mention?, hfind, Option.filter_some, if_neg hnot]
      exact ⟨_, hround, by dsimp only; omega, _, _, _, _, follows_passed h hbefore hmention⟩

end Follows

/-- The states that the loop for loose mentions comes to. -/
abbrev LooseReached (name reference text : List Char) : Scan → Prop :=
  Relation.ReflTransGen (fun s s' => s.looseRound? name reference text = some (.next s')) {}

theorem exists_follows {name reference text : List Char} {s : Scan}
    (h : LooseReached name reference text s) :
    ∃ front passed rest pieces, Follows name reference text s front passed rest pieces := by
  induction h with
  | refl => exact ⟨_, _, _, _, follows_start name reference text⟩
  | tail _ hround ih =>
    obtain ⟨_, _, _, _, hfollows⟩ := ih
    rcases hfollows.round with ⟨hdone, -⟩ | ⟨s', hnext, -, hfollows'⟩
    · simp [hdone] at hround
    · obtain rfl : s' = _ := by simpa [hnext] using hround
      exact hfollows'

/-- The position rises in every round and stays within the text, so the loop comes to an end. -/
theorem exists_last {name reference text : List Char} {s : Scan}
    (h : LooseReached name reference text s) : ∃ last, LooseReached name reference text last ∧
      last.looseRound? name reference text = some .done ∧
      last.finish? text = some (Pass.loose.replace? name reference text) := by
  induction hleft : byteLength text - s.position using Nat.strong_induction_on generalizing s with
  | _ n ih =>
    obtain ⟨_, _, _, _, hfollows⟩ := exists_follows h
    rcases hfollows.round with ⟨hdone, hfinish⟩ | ⟨s', hnext, hlt, _, _, _, _, hfollows'⟩
    · exact ⟨s, h, hdone, hfinish⟩
    · have hle := hfollows'.position_le
      exact ih _ (by omega) (h.tail hnext) rfl

end Scan

/-! ## Without mentions -/

theorem occurrencesFrom_eq_nil_iff {offset : Nat} {pieces : List Piece} :
    occurrencesFrom offset pieces = [] ↔ pieces.any Piece.isMention = false := by
  induction pieces generalizing offset with
  | nil => simp [occurrencesFrom]
  | cons piece pieces ih =>
    cases piece with
    | kept c => simpa [occurrencesFrom, Piece.isMention] using ih
    | mention hit taken => simp [occurrencesFrom, Piece.isMention]

/-- A pass that asks for nothing after a mention takes every preferred reading. -/
theorem mention?_eq_firstHit? {pass : Pass} (hahead : pass.ahead = none) (name : List Char) :
    pass.mention? name = pass.firstHit? name := by
  funext text
  rw [Pass.mention?]
  cases pass.firstHit? name text with
  | none => rfl
  | some hit => simp [Option.filter, Pass.accepts, hahead]

/-- Such a pass returns nothing exactly if it finds nothing. -/
theorem replace?_eq_none_iff {pass : Pass} (hahead : pass.ahead = none) {name reference text : List Char} :
    pass.replace? name reference text = none ↔ pass.occurrences name text = [] := by
  rw [Pass.occurrences, occurrencesFrom_eq_nil_iff, ← mention?_eq_firstHit? hahead, Pass.replace?]
  split <;> simp_all

/-- What the loose pass does with a text, for every name and text. The loop over bytes slices only
where characters start, its position rises in every round and stays within the text, and so it comes
to an end. What it returns is what the pass writes, and what replacing each mention of the expression
that looks ahead writes, which is nothing exactly if there are none. Where the preferred reading is
not followed by what closes a mention, no other reading at its place is. -/
theorem scan_loose (name reference text : List Char) :
    (∀ s, Scan.LooseReached name reference text s →
      ∃ round, s.looseRound? name reference text = some round ∧
        ∀ s', round = .next s' → s.position < s'.position ∧ s'.position ≤ byteLength text) ∧
    (∃ last, Scan.LooseReached name reference text last ∧
      last.looseRound? name reference text = some .done ∧
      last.finish? text = some (Pass.lookingAhead.replace? name reference text)) ∧
    Pass.loose.replace? name reference text = Pass.lookingAhead.replace? name reference text ∧
    (Pass.lookingAhead.replace? name reference text = none ↔
      Pass.lookingAhead.occurrences name text = []) ∧
    ∀ place hit, Pass.loose.firstHit? name place = some hit → Pass.loose.accepts hit = false →
      ∀ other ∈ Pass.loose.hits name place, Pass.loose.accepts other = false := by
  have hreplace : Pass.loose.replace? name reference text =
      Pass.lookingAhead.replace? name reference text := by
    have hmention : Pass.lookingAhead.mention? name = Pass.loose.mention? name :=
      funext (mention?_lookingAhead name)
    rw [Pass.replace?, Pass.replace?, hmention]
    rfl
  refine ⟨fun s hs => ?_, ?_, hreplace, ?_, fun place hit => not_accepted_of_firstHit?⟩
  · obtain ⟨_, _, _, _, hfollows⟩ := Scan.exists_follows hs
    rcases hfollows.round with ⟨hdone, -⟩ | ⟨s', hnext, hlt, _, _, _, _, hfollows'⟩
    · exact ⟨.done, hdone, by simp⟩
    · refine ⟨.next s', hnext, ?_⟩
      rintro s'' heq
      obtain rfl := Round.next.inj heq
      exact ⟨hlt, hfollows'.position_le⟩
  · rw [← hreplace]
    exact Scan.exists_last .refl
  · rw [replace?_eq_none_iff rfl]

end SiteFolders.Reference
