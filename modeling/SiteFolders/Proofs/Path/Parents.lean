import SiteFolders.Proofs.Path.Names

/-!
# Parents

A path goes through the names of its parent and then through some more (`goesThrough_of_parent?`),
so it goes through the names of everything above it. Unless nothing is left of the path, the names
after those of the parent are not only dots.
-/

namespace SiteFolders.Path

/-- The path `p` goes through the names of `q` from the same start, and then through the names
`rest`. -/
structure GoesThrough (p q : Path) (rest : List String) : Prop where
  start : p.isAbsolute = q.isAbsolute
  names : Disk.namesOf p.text = Disk.namesOf q.text ++ rest

theorem GoesThrough.refl (p : Path) : p.GoesThrough p [] := ⟨rfl, by simp⟩

theorem GoesThrough.trans {p q r : Path} {rest more : List String} (h : p.GoesThrough q rest)
    (h' : q.GoesThrough r more) : p.GoesThrough r (more ++ rest) :=
  ⟨h.start.trans h'.start, by rw [h.names, h'.names, List.append_assoc]⟩

theorem GoesThrough.startOf {p q : Path} {rest : List String} (h : p.GoesThrough q rest)
    (here : Location) : Disk.startOf p.text here = Disk.startOf q.text here := by
  have hstart := h.start
  unfold isAbsolute at hstart
  unfold Disk.startOf
  rw [Bool.eq_iff_iff, beq_iff_eq, beq_iff_eq] at hstart
  simp only [hstart]

/-! ## The start of a path -/

/-- An absolute path begins with the step to the root directory. -/
theorem isAbsolute_iff {p : Path} :
    p.isAbsolute = true ↔ ∃ rest, p.pieces = (some .root, "") :: rest := by
  obtain ⟨first, rest, hsegs⟩ := List.exists_cons_of_ne_nil (segmentsOf_ne_nil p.text)
  have htext := intercalate_segmentsOf p.text
  have hslash : '/' ∉ first.toList := no_slash_of_mem_segmentsOf (hsegs ▸ List.mem_cons_self)
  rw [pieces_of_segmentsOf hsegs, isAbsolute, ← htext, hsegs]
  cases rest with
  | nil =>
    have hhead : first.toList.head? ≠ some '/' := fun h => hslash (List.mem_of_mem_head? h)
    have hroot := ofSegment?_ne_root first
    by_cases hdot : first = "." <;> simp [hhead, hdot, hroot]
  | cons second more =>
    by_cases hfirst : first = ""
    · simp [hfirst]
    · have hchars : first.toList ≠ [] := by simpa using hfirst
      obtain ⟨c, cs, hc⟩ := List.exists_cons_of_ne_nil hchars
      have hne : c ≠ '/' := fun h => hslash (by simp [hc, h])
      simp [hfirst, hc, hne]

theorem trimEnd_cons {x : Piece} (hx : x.1.isNone = false) (ps : List Piece) :
    trimEnd (x :: ps) = x :: trimEnd ps := by
  simp only [trimEnd, List.reverse_cons, List.dropWhile_append]
  split
  · next h => simp [List.isEmpty_iff.1 h, hx]
  · simp

/-- The step to the root directory is not trimmed away. -/
theorem trimEnd_eq_root_cons {ps : List Piece} :
    (∃ rest, trimEnd ps = (some .root, "") :: rest) ↔ ∃ rest, ps = (some .root, "") :: rest := by
  constructor
  · rintro ⟨rest, h⟩
    obtain ⟨more, hmore⟩ := trimEnd_isPrefix ps
    exact ⟨rest ++ more, by rw [← hmore, h, List.cons_append]⟩
  · rintro ⟨rest, rfl⟩
    exact ⟨trimEnd rest, trimEnd_cons rfl rest⟩

theorem isSome_of_getLast?_trimEnd {ps : List Piece} {x : Piece}
    (h : (trimEnd ps).getLast? = some x) : x.1.isSome = true := by
  rw [trimEnd, List.getLast?_reverse] at h
  have hnot := List.head?_dropWhile_not (fun y : Piece => y.1.isNone) ps.reverse
  rw [h] at hnot
  simpa using hnot

/-! ## The names of a path and of its parent -/

/-- The names of the first pieces of a path. -/
theorem namesOf_ofPieces {p : Path} {ps : List Piece} (hpre : ps <+: p.pieces) :
    Disk.namesOf (ofPieces ps).text = (ps.map Prod.snd).filter (· != "") := by
  unfold ofPieces
  split
  · next s =>
    -- the piece of the root directory has no text
    obtain ⟨first, rest, hsegs⟩ := List.exists_cons_of_ne_nil (segmentsOf_ne_nil p.text)
    rw [pieces_of_segmentsOf hsegs, List.cons_prefix_cons, Prod.mk.injEq] at hpre
    obtain ⟨⟨hroot, rfl⟩, -⟩ := hpre
    by_cases hs : s = ""
    · simp [Disk.namesOf, segmentsOf_slash, hs]
    · rw [if_neg (fun h => hs h.1)] at hroot
      split at hroot
      · simp at hroot
      · exact absurd hroot.symm (ofSegment?_ne_root s)
  · cases ps with
    | nil => simp [Disk.namesOf, segmentsOf_empty]
    | cons x rest =>
      have hslash : ∀ s ∈ (x :: rest).map Prod.snd, '/' ∉ s.toList := by
        intro s hs
        have hmem : s ∈ p.pieces.map Prod.snd := (hpre.map Prod.snd).subset hs
        rw [map_snd_pieces] at hmem
        exact no_slash_of_mem_segmentsOf hmem
      rw [Disk.namesOf, segmentsOf_intercalate (by simp) hslash]

/-- A piece that is not the first one and stands for a step is no dot. -/
theorem ne_dot_of_mem_tail_pieces {p : Path} {x : Piece} (hx : x ∈ p.pieces.tail)
    (hstep : x.1.isSome = true) : x.2 ≠ "" ∧ x.2 ≠ "." := by
  obtain ⟨first, rest, hsegs⟩ := List.exists_cons_of_ne_nil (segmentsOf_ne_nil p.text)
  rw [pieces_of_segmentsOf hsegs, List.tail_cons] at hx
  obtain ⟨s, -, rfl⟩ := List.mem_map.1 hx
  by_contra hdot
  rw [← not_or, not_not] at hdot
  simp [Component.ofSegment?, hdot] at hstep

/-- The parent of a path is what comes before the last step, and this is not the one to the root
directory. -/
theorem pieces_of_parent? {p q : Path} (h : p.parent? = some q) : ∃ init x tail,
    trimEnd p.pieces = init ++ [x] ∧ p.pieces = init ++ x :: tail ∧ q = ofPieces (trimEnd init) ∧
      x.1.isSome = true ∧ x.1 ≠ some .root := by
  unfold parent? at h
  cases hlast : (trimEnd p.pieces).getLast? with
  | none => simp [hlast] at h
  | some x =>
    obtain ⟨init, hinit⟩ := List.getLast?_eq_some_iff.1 hlast
    obtain ⟨tail, htail⟩ := trimEnd_isPrefix p.pieces
    have hstep := isSome_of_getLast?_trimEnd hlast
    rw [hinit, List.append_assoc, List.singleton_append] at htail
    rcases x with ⟨step, s⟩
    cases step with
    | none => simp at hstep
    | some c =>
      have hroot : c ≠ .root := by
        rintro rfl
        simp [hlast] at h
      refine ⟨init, _, tail, hinit, htail.symm, ?_, rfl, by simpa using hroot⟩
      simp only [hinit, List.getLast?_concat, List.dropLast_concat] at h
      split at h
      · simp at h
      · next heq => simp_all
      · simpa using h.symm

/-- A path goes through the names of its parent and then through names that are not all dots, where
anything is left of the path. -/
theorem goesThrough_of_parent? {p q : Path} (h : p.parent? = some q) :
    ∃ rest, p.GoesThrough q rest ∧ (q.text ≠ "" → ∃ n ∈ rest, n ≠ ".") := by
  obtain ⟨init, x, tail, hinit, hpieces, rfl, hstep, hroot⟩ := pieces_of_parent? h
  obtain ⟨dots, hdots⟩ := trimEnd_isPrefix init
  have hsplit : p.pieces = trimEnd init ++ (dots ++ x :: tail) := by
    rw [← List.append_assoc, hdots, hpieces]
  have hpre : trimEnd init <+: p.pieces := ⟨_, hsplit.symm⟩
  refine ⟨((dots ++ x :: tail).map Prod.snd).filter (· != ""), ⟨?_, ?_⟩, fun htext => ?_⟩
  · have hparent := trimEnd_pieces_ofPieces hpre (trimEnd_trimEnd init)
    rw [Bool.eq_iff_iff, isAbsolute_iff, isAbsolute_iff, ← trimEnd_eq_root_cons, hinit,
      ← @trimEnd_eq_root_cons (ofPieces (trimEnd init)).pieces, hparent, trimEnd_eq_root_cons]
    cases init with
    | nil =>
      simp only [List.nil_append, List.cons.injEq, reduceCtorEq, exists_false, iff_false,
        not_exists, not_and]
      rintro - rfl
      exact absurd rfl hroot
    | cons y ys => simp
  · rw [namesOf_ofPieces hpre, Disk.namesOf, ← map_snd_pieces, hsplit, List.map_append,
      List.filter_append]
  · -- the step that the parent lacks is not the first one
    have hne : trimEnd init ≠ [] := by
      rintro hnil
      simp [hnil, ofPieces] at htext
    obtain ⟨y, ys, hys⟩ := List.exists_cons_of_ne_nil hne
    have hmem : x ∈ p.pieces.tail := by
      rw [hsplit, hys]
      simp
    obtain ⟨hempty, hdot⟩ := ne_dot_of_mem_tail_pieces hmem hstep
    exact ⟨x.2, by simp [hempty], hdot⟩

theorem goesThrough_of_mem_ancestorsWithin {q : Path} : ∀ {fuel : Nat} {p : Path},
    q ∈ ancestorsWithin fuel p → ∃ rest, p.GoesThrough q rest
  | 0, p, h => by
    obtain rfl : q = p := by simpa [ancestorsWithin] using h
    exact ⟨[], .refl q⟩
  | fuel + 1, p, h => by
    rw [ancestorsWithin, List.mem_cons] at h
    rcases h with rfl | h
    · exact ⟨[], .refl q⟩
    · cases hparent : p.parent? with
      | none => simp [hparent] at h
      | some r =>
        simp only [hparent] at h
        obtain ⟨rest, hrest⟩ := goesThrough_of_mem_ancestorsWithin h
        obtain ⟨more, hmore, -⟩ := goesThrough_of_parent? hparent
        exact ⟨_, hmore.trans hrest⟩

/-- A path goes through the names of everything above it. -/
theorem goesThrough_of_mem_ancestors {p q : Path} (h : q ∈ p.ancestors) :
    ∃ rest, p.GoesThrough q rest :=
  goesThrough_of_mem_ancestorsWithin h

end SiteFolders.Path
