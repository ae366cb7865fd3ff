import SiteFolders.Reference.Moved

/-!
# Cutting and writing

Whether a mention is found at a place depends on the text from there on only. So a text can be cut
at any place that no mention straddles, and what comes after the place is written as if it stood
alone (`write_append`).
-/

namespace SiteFolders.Reference

variable {find : List Char → Option Hit}

theorem cut_of_none {c : Char} {rest : List Char} (h : find (c :: rest) = none) :
    cut find (c :: rest) = .kept c :: cut find rest := by
  rw [cut, h]

theorem cut_of_some {c : Char} {rest : List Char} {hit : Hit} (h : find (c :: rest) = some hit) :
    cut find (c :: rest) = .mention hit (c :: rest.take (hit.length - 1)) ::
      cut find (rest.drop (hit.length - 1)) := by
  rw [cut, h]

/-- Cutting goes on after the mention that a text starts with. -/
theorem cut_of_find {text : List Char} {hit : Hit} (hne : text ≠ []) (hpos : 0 < hit.length)
    (h : find text = some hit) : cut find text =
      .mention hit (text.take hit.length) :: cut find (text.drop hit.length) := by
  rcases List.exists_cons_of_ne_nil hne with ⟨c, rest, rfl⟩
  rcases Nat.exists_eq_add_of_lt hpos with ⟨n, hn⟩
  rw [cut_of_some h, hn]
  simp

/-- No mention that starts in the first text reaches into the second one. -/
def Separate (find : List Char → Option Hit) (front rest : List Char) : Prop :=
  ∀ x, x <:+ front → x ≠ [] → ∀ hit, find (x ++ rest) = some hit → hit.length ≤ x.length

theorem Separate.of_suffix {front x rest : List Char} (h : Separate find front rest)
    (hx : x <:+ front) : Separate find x rest :=
  fun y hy hne hit hfind => h y (hy.trans hx) hne hit hfind

/-- A text is cut at a place that no mention straddles. -/
theorem cut_append : ∀ {front rest : List Char}, Separate find front rest →
    ∃ ps, cut find (front ++ rest) = ps ++ cut find rest
  | [], rest, _ => ⟨[], rfl⟩
  | c :: front, rest, h => by
    cases hfind : find (c :: (front ++ rest)) with
    | none =>
      rcases cut_append (h.of_suffix (List.suffix_cons c front)) with ⟨ps, hps⟩
      exact ⟨.kept c :: ps, by rw [List.cons_append, cut_of_none hfind, hps]; rfl⟩
    | some hit =>
      -- the mention ends in the first text, so what is left of it is cut again
      have hend := h (c :: front) List.suffix_rfl (by simp) hit hfind
      simp only [List.length_cons] at hend
      have hdrop : (front ++ rest).drop (hit.length - 1) =
          front.drop (hit.length - 1) ++ rest :=
        List.drop_append_of_le_length (by omega)
      obtain ⟨ps, hps⟩ := cut_append
        (h.of_suffix ((List.drop_suffix (hit.length - 1) front).trans (List.suffix_cons c front)))
      exact ⟨.mention hit (c :: (front ++ rest).take (hit.length - 1)) :: ps,
        by rw [List.cons_append, cut_of_some hfind, hdrop, hps]; rfl⟩
termination_by front => front.length
decreasing_by
  · simp
  · simp only [List.length_drop, List.length_cons]
    omega

/-- Where no mention starts, the characters are kept. -/
theorem cut_append_of_none {front rest : List Char}
    (h : ∀ x, x <:+ front → x ≠ [] → find (x ++ rest) = none) :
    cut find (front ++ rest) = front.map .kept ++ cut find rest := by
  induction front with
  | nil => rfl
  | cons c front ih =>
    have ih := ih fun x hx => h x (hx.trans (List.suffix_cons c front))
    have hnone : find (c :: (front ++ rest)) = none := h (c :: front) List.suffix_rfl (by simp)
    rw [List.cons_append, cut_of_none hnone, ih]
    rfl

/-- A mention starts in a text, or none does; the first one that starts there comes after
characters that are kept. -/
theorem first_find (front rest : List Char) :
    (∀ x, x <:+ front → x ≠ [] → find (x ++ rest) = none) ∨
      ∃ y x hit, front = y ++ x ∧ x ≠ [] ∧ find (x ++ rest) = some hit ∧
        cut find (front ++ rest) = y.map .kept ++ cut find (x ++ rest) := by
  induction front with
  | nil => exact Or.inl fun x hx hne => absurd (List.suffix_nil.1 hx) hne
  | cons c front ih =>
    cases hfind : find (c :: (front ++ rest)) with
    | some hit => exact Or.inr ⟨[], c :: front, hit, rfl, by simp, hfind, rfl⟩
    | none =>
      rcases ih with hnone | ⟨y, x, hit, rfl, hne, hx, hcut⟩
      · left
        intro x hx hne
        rcases List.suffix_cons_iff.1 hx with rfl | hx
        · exact hfind
        · exact hnone x hx hne
      · right
        refine ⟨c :: y, x, hit, rfl, hne, hx, ?_⟩
        rw [List.cons_append, cut_of_none hfind, hcut]
        rfl

/-- Where a text is cut into single characters, no mention starts in it. -/
theorem find_eq_none_of_cut : ∀ {text : List Char}, (cut find text).any Piece.isMention = false →
    ∀ {x : List Char}, x <:+ text → x ≠ [] → find x = none
  | [], _, x, hx, hne => absurd (List.suffix_nil.1 hx) hne
  | c :: rest, h, x, hx, hne => by
    cases hfind : find (c :: rest) with
    | some hit =>
      rw [cut_of_some hfind] at h
      simp [Piece.isMention] at h
    | none =>
      rw [cut_of_none hfind, List.any_cons, Bool.or_eq_false_iff] at h
      rcases List.suffix_cons_iff.1 hx with rfl | hx
      · exact hfind
      · exact find_eq_none_of_cut h.2 hx hne

/-- A mention among the pieces of a text is found at the start of what is left there. -/
theorem exists_suffix_of_mem_cut {find : List Char → Option Hit} :
    ∀ {text : List Char} {hit : Hit} {t : List Char}, Piece.mention hit t ∈ cut find text →
      ∃ z, z <:+ text ∧ find z = some hit ∧ ∃ c rest, z = c :: rest ∧
        t = c :: rest.take (hit.length - 1)
  | [], hit, t, h => by simp [cut] at h
  | c :: rest, hit, t, h => by
    cases hfind : find (c :: rest) with
    | none =>
      rw [cut_of_none hfind] at h
      obtain ⟨z, hz, hrest⟩ := exists_suffix_of_mem_cut (by simpa using h)
      exact ⟨z, hz.trans (List.suffix_cons c rest), hrest⟩
    | some first =>
      rw [cut_of_some hfind] at h
      rcases List.mem_cons.1 h with heq | h
      · obtain ⟨rfl, rfl⟩ := Piece.mention.inj heq
        exact ⟨c :: rest, List.suffix_rfl, hfind, c, rest, rfl, rfl⟩
      · obtain ⟨z, hz, hrest⟩ := exists_suffix_of_mem_cut h
        exact ⟨z, (hz.trans (List.drop_suffix _ rest)).trans (List.suffix_cons c rest), hrest⟩
termination_by text => text.length
decreasing_by
  · simp
  · simp only [List.length_drop, List.length_cons]
    omega

/-! ## Writing -/

/-- The text with all mentions written anew, also if there are none. -/
def Pass.write (pass : Pass) (name reference text : List Char) : List Char :=
  (cut (pass.mention? name) text).flatMap (Piece.write pass.style reference)

theorem flatMap_write_kept (style : Style) (reference cs : List Char) :
    (cs.map Piece.kept).flatMap (Piece.write style reference) = cs := by
  induction cs with
  | nil => rfl
  | cons c cs ih => simpa [Piece.write] using ih

theorem write_eq_self {style : Style} {reference : List Char} {ps : List Piece}
    (h : ps.any Piece.isMention = false) :
    ps.flatMap (Piece.write style reference) = ps.flatMap Piece.text := by
  induction ps with
  | nil => rfl
  | cons p ps ih =>
    simp only [List.any_cons, Bool.or_eq_false_iff] at h
    cases p with
    | kept c => simpa [Piece.write, Piece.text] using ih h.2
    | mention hit text => simp [Piece.isMention] at h

/-- Applying a pass to a draft writes its text. -/
theorem text_apply (name reference : List Char) (draft : Draft) (pass : Pass) :
    (draft.apply name reference pass).text = pass.write name reference draft.text := by
  unfold Draft.apply Pass.replace? Pass.write
  simp only
  by_cases h : (cut (pass.mention? name) draft.text).any Piece.isMention = true
  · simp [h]
  · rw [write_eq_self (by simpa using h), text_cut]
    simp [h]

/-- What comes after a place that no mention straddles is written as if it stood alone. -/
theorem write_append {pass : Pass} {name front rest : List Char} (reference : List Char)
    (h : Separate (pass.mention? name) front rest) :
    ∃ front', pass.write name reference (front ++ rest) =
      front' ++ pass.write name reference rest := by
  rcases cut_append h with ⟨ps, hps⟩
  exact ⟨ps.flatMap (Piece.write pass.style reference), by rw [Pass.write, hps, List.flatMap_append]; rfl⟩

theorem write_append_of_none {pass : Pass} {name front rest : List Char} (reference : List Char)
    (h : ∀ x, x <:+ front → x ≠ [] → pass.mention? name (x ++ rest) = none) :
    pass.write name reference (front ++ rest) = front ++ pass.write name reference rest := by
  rw [Pass.write, cut_append_of_none h, List.flatMap_append, flatMap_write_kept]
  rfl

end SiteFolders.Reference
