import SiteFolders.Disk.Resolve
import Mathlib.Data.List.DropRight

/-!
# Names and joined paths

A name is a text that can stand for an entry of a directory. Joining a name to a path adds one
segment at its end: `pieces_join` says so once, and what the names, the steps, the file name and
the parent of a joined path are follows from it.
-/

namespace SiteFolders

/-- A text that can name an entry of a directory. -/
structure IsName (s : String) : Prop where
  ne_empty : s ≠ ""
  no_slash : '/' ∉ s.toList
  ne_dot : s ≠ "."
  ne_dots : s ≠ ".."

instance (s : String) : Decidable (IsName s) :=
  decidable_of_iff (s ≠ "" ∧ '/' ∉ s.toList ∧ s ≠ "." ∧ s ≠ "..")
    ⟨fun ⟨h1, h2, h3, h4⟩ => ⟨h1, h2, h3, h4⟩, fun ⟨h1, h2, h3, h4⟩ => ⟨h1, h2, h3, h4⟩⟩

namespace IsName

variable {s : String} (hs : IsName s)
include hs

theorem toList_ne_nil : s.toList ≠ [] := fun h => hs.ne_empty (String.toList_eq_nil_iff.1 h)

theorem head?_ne_slash : s.toList.head? ≠ some '/' := fun h =>
  hs.no_slash (List.mem_of_mem_head? h)

theorem exists_getLast? : ∃ c, s.toList.getLast? = some c :=
  ⟨_, List.getLast?_eq_some_getLast hs.toList_ne_nil⟩

theorem getLast?_ne_slash : s.toList.getLast? ≠ some '/' := fun h =>
  hs.no_slash (List.mem_of_getLast? h)

theorem ofSegment? : Component.ofSegment? s = some (.name s) := by
  simp [Component.ofSegment?, hs.ne_empty, hs.ne_dot, hs.ne_dots]

end IsName

namespace Path

/-! ## Segments -/

theorem segmentsOf_ne_nil (text : String) : segmentsOf text ≠ [] := by
  simp [segmentsOf]

theorem segmentsOf_of_no_slash {text : String} (h : '/' ∉ text.toList) :
    segmentsOf text = [text] := by
  simp [segmentsOf, List.splitOn_eq_singleton h]

/-- A slash between two texts separates their segments. -/
theorem segmentsOf_append_slash (a b : String) :
    segmentsOf (a ++ "/" ++ b) = segmentsOf a ++ segmentsOf b := by
  have hsplit := List.splitOn_append_cons_self (a := '/') a.toList b.toList
  simp only [segmentsOf, String.toList_append, List.append_assoc]
  have hslash : "/".toList = ['/'] := rfl
  rw [hslash, List.singleton_append, hsplit, List.map_append]

theorem segmentsOf_empty : segmentsOf "" = [""] := segmentsOf_of_no_slash (by simp)

theorem segmentsOf_slash : segmentsOf "/" = ["", ""] := by
  have hsnoc := segmentsOf_append_slash "" ""
  rwa [segmentsOf_empty, String.append_empty, String.empty_append] at hsnoc

/-- No part between separators holds the separator. -/
theorem notMem_of_mem_splitOn {sep : Char} {cs part : List Char} (h : part ∈ cs.splitOn sep) :
    sep ∉ part := by
  induction cs generalizing part with
  | nil => simp_all
  | cons c rest ih =>
    rw [List.splitOn_cons_eq_if_modifyHead] at h
    rcases List.exists_cons_of_ne_nil (List.splitOn_ne_nil sep rest) with ⟨first, others, hrest⟩
    rw [hrest] at h ih
    split at h
    · rcases List.mem_cons.1 h with rfl | h
      · simp
      · exact ih h
    · next hc =>
      rcases List.mem_cons.1 h with rfl | h
      · have hfirst : sep ∉ first := ih (by simp)
        simp only [List.mem_cons, not_or]
        exact ⟨fun he => hc (by simp [he]), hfirst⟩
      · exact ih (List.mem_cons_of_mem _ h)

theorem no_slash_of_mem_segmentsOf {text s : String} (h : s ∈ segmentsOf text) :
    '/' ∉ s.toList := by
  rcases List.mem_map.1 h with ⟨part, hpart, rfl⟩
  rw [String.toList_ofList]
  exact notMem_of_mem_splitOn hpart

/-- A path is its segments put together again. -/
theorem intercalate_segmentsOf (text : String) : "/".intercalate (segmentsOf text) = text := by
  apply String.toList_inj.1
  have hslash : "/".toList = ['/'] := rfl
  rw [String.toList_intercalate, segmentsOf, List.map_map, hslash]
  have hid : (String.toList ∘ String.ofList) = id := by
    funext l
    simp
  rw [hid, List.map_id, List.intercalate_splitOn]

theorem map_snd_pieces (p : Path) : p.pieces.map Prod.snd = segmentsOf p.text := by
  unfold pieces
  split
  · next h => exact absurd h (segmentsOf_ne_nil _)
  · next first rest h => simp [h, Function.comp_def]

theorem pieces_of_segmentsOf {p : Path} {first : String} {rest : List String}
    (h : segmentsOf p.text = first :: rest) :
    p.pieces = ((if first = "" ∧ rest ≠ [] then some .root
      else if first = "." then some .here else Component.ofSegment? first), first) ::
        rest.map fun s => (Component.ofSegment? s, s) := by
  simp [pieces, h]

theorem ofSegment?_ne_root (s : String) : Component.ofSegment? s ≠ some .root := by
  unfold Component.ofSegment?
  split
  · simp
  · split <;> simp

theorem pieces_ne_root (p : Path) (s : String) : p.pieces ≠ [(some .root, s)] := by
  rcases List.exists_cons_of_ne_nil (segmentsOf_ne_nil p.text) with ⟨first, rest, h⟩
  rw [pieces_of_segmentsOf h]
  intro heq
  simp only [List.cons.injEq, Prod.mk.injEq, List.map_eq_nil_iff] at heq
  rcases heq with ⟨⟨hstart, -⟩, rfl⟩
  simp only [ne_eq, not_true_eq_false, and_false, if_false] at hstart
  split at hstart
  · simp at hstart
  · exact ofSegment?_ne_root _ hstart

/-- A path is its pieces put together again. -/
theorem ofPieces_pieces (p : Path) : ofPieces p.pieces = p := by
  unfold ofPieces
  split
  · next s h => exact absurd h (pieces_ne_root p s)
  · next h =>
    rw [map_snd_pieces, intercalate_segmentsOf]

/-! ## Joining a segment -/

section JoinSegment

variable {s : String}

/-- How the text of a joined path comes about: an empty path and a slash at the end need no slash
in between. -/
theorem join_segment_cases (hs : s.toList.head? ≠ some '/') (p : Path) :
    (p.text = "" ∧ p.join s = ⟨s⟩) ∨
    (∃ t, p.text = t ++ "/" ∧ p.join s = ⟨t ++ "/" ++ s⟩) ∨
    (p.text ≠ "" ∧ p.text.toList.getLast? ≠ some '/' ∧ p.join s = ⟨p.text ++ "/" ++ s⟩) := by
  by_cases hempty : p.text = ""
  · left
    refine ⟨hempty, ?_⟩
    simp [join, hs, hempty]
  · by_cases hlast : p.text.toList.getLast? = some '/'
    · right; left
      rcases List.getLast?_eq_some_iff.1 hlast with ⟨init, hinit⟩
      have htext : p.text = String.ofList init ++ "/" := by
        apply String.toList_inj.1
        rw [hinit, String.toList_append, String.toList_ofList]
        rfl
      refine ⟨String.ofList init, htext, ?_⟩
      rw [join, if_neg hs, if_pos (Or.inr hlast), htext]
    · right; right
      refine ⟨hempty, hlast, ?_⟩
      rw [join, if_neg hs, if_neg (by simp [hempty, hlast])]

/-- Whatever is joined to a path comes after the same text, unless it is absolute. -/
theorem exists_start (p : Path) :
    ∃ start, ∀ rest : String, rest.toList.head? ≠ some '/' → p.join rest = ⟨start ++ rest⟩ := by
  by_cases hend : p.text.isEmpty = true ∨ p.text.toList.getLast? = some '/'
  · exact ⟨p.text, fun rest hrest => by rw [join, if_neg hrest, if_pos hend]⟩
  · exact ⟨p.text ++ "/", fun rest hrest => by rw [join, if_neg hrest, if_neg hend]⟩

variable (hs : '/' ∉ s.toList) {p : Path} (hp : p.text ≠ "")
include hs hp

/-- Joining a segment adds a piece at the end, in place of the empty one that a slash leaves there.
-/
theorem pieces_join_segment :
    ∃ init, (p.join s).pieces = init ++ [(Component.ofSegment? s, s)] ∧
      (p.pieces = init ∨ p.pieces = init ++ [(none, "")]) := by
  have hsingle := segmentsOf_of_no_slash hs
  have hhead : s.toList.head? ≠ some '/' := fun h => hs (List.mem_of_mem_head? h)
  rcases join_segment_cases hhead p with ⟨hempty, -⟩ | ⟨t, htext, hjoin⟩ | ⟨-, -, hjoin⟩
  · exact absurd hempty hp
  · -- the path ends in a slash, whose empty segment gives way to the new one
    have hsegs : segmentsOf p.text = segmentsOf t ++ [""] := by
      have hsnoc := segmentsOf_append_slash t ""
      rw [String.append_empty] at hsnoc
      rw [htext, hsnoc, segmentsOf_empty]
    have hsegs' : segmentsOf (p.join s).text = segmentsOf t ++ [s] := by
      rw [hjoin, segmentsOf_append_slash, hsingle]
    rcases List.exists_cons_of_ne_nil (segmentsOf_ne_nil t) with ⟨first, rest, hfirst⟩
    rw [hfirst] at hsegs hsegs'
    simp only [pieces, hsegs, hsegs', List.cons_append, List.map_append, List.map_cons,
      List.map_nil]
    simp only [ne_eq, List.append_eq_nil_iff, List.cons_ne_self, and_false, not_false_eq_true,
      and_true]
    have hempty : Component.ofSegment? "" = none := by simp [Component.ofSegment?]
    rw [hempty]
    exact ⟨_ :: rest.map fun s => (Component.ofSegment? s, s), rfl, Or.inr rfl⟩
  · refine ⟨p.pieces, ?_, Or.inl rfl⟩
    have hsegs : segmentsOf (p.join s).text = segmentsOf p.text ++ [s] := by
      rw [hjoin, segmentsOf_append_slash, hsingle]
    rcases List.exists_cons_of_ne_nil (segmentsOf_ne_nil p.text) with ⟨first, rest, hfirst⟩
    have hne : first = "" → rest ≠ [] := by
      rintro rfl rfl
      have htext := intercalate_segmentsOf p.text
      rw [hfirst] at htext
      exact hp (by simpa using htext.symm)
    simp only [pieces, hsegs, hfirst, List.cons_append, List.map_append, List.map_cons,
      List.map_nil]
    by_cases hf : first = "" <;> simp [hf, hne]

theorem components_join_segment :
    (p.join s).components = p.components ++ (Component.ofSegment? s).toList := by
  obtain ⟨init, hjoin, hp | hp⟩ := pieces_join_segment hs hp <;>
    cases hc : Component.ofSegment? s <;> simp [components, hjoin, hp, hc]

theorem text_join_segment_ne_empty : (p.join s).text ≠ "" := by
  have hhead : s.toList.head? ≠ some '/' := fun h => hs (List.mem_of_mem_head? h)
  rcases join_segment_cases hhead p with ⟨h, -⟩ | ⟨t, -, h⟩ | ⟨-, -, h⟩
  · exact absurd h hp
  · simp [h, String.append_eq_empty_iff]
  · simp [h, String.append_eq_empty_iff]

end JoinSegment

/-! ## Joining a name -/

section Join

variable {n : String} (hn : IsName n) (p : Path)
include hn

/-- How the text of a path with a name joined to it comes about. -/
theorem join_cases :
    (p.text = "" ∧ p.join n = ⟨n⟩) ∨
    (∃ t, p.text = t ++ "/" ∧ p.join n = ⟨t ++ "/" ++ n⟩) ∨
    (p.text ≠ "" ∧ p.text.toList.getLast? ≠ some '/' ∧ p.join n = ⟨p.text ++ "/" ++ n⟩) :=
  join_segment_cases hn.head?_ne_slash p

/-- Joining a name adds a piece at the end, in place of the empty one that a slash leaves there. -/
theorem pieces_join :
    ∃ init, (p.join n).pieces = init ++ [(some (.name n), n)] ∧
      (p.pieces = init ∨ p.pieces = init ++ [(none, "")]) := by
  by_cases hp : p.text = ""
  · have hjoin : p.join n = ⟨n⟩ := by simp [join, hn.head?_ne_slash, hp]
    refine ⟨[], ?_, Or.inr ?_⟩
    · simp [hjoin, pieces, segmentsOf_of_no_slash hn.no_slash, hn.ne_empty, hn.ne_dot,
        hn.ofSegment?]
    · simp [hp, pieces, segmentsOf_empty, Component.ofSegment?]
  · simpa [hn.ofSegment?] using pieces_join_segment hn.no_slash hp

/-- Joining shortens neither the path nor the name. -/
theorem size_le_size_join :
    p.text.utf8ByteSize + n.utf8ByteSize ≤ (p.join n).text.utf8ByteSize := by
  rcases join_cases hn p with ⟨hp, h⟩ | ⟨t, hp, h⟩ | ⟨-, -, h⟩
  · simp [h, hp]
  · simp [h, hp, String.utf8ByteSize_append]
  · rw [h]
    simp only [String.utf8ByteSize_append]
    omega

theorem components_join : (p.join n).components = p.components ++ [.name n] := by
  obtain ⟨init, hjoin, hp | hp⟩ := pieces_join hn p <;>
    simp [components, hjoin, hp]

theorem fileName?_join : (p.join n).fileName? = some n := by
  simp [fileName?, components_join hn]

/-- The parent of a joined path is the path without the slashes and dots at its end. -/
theorem parent?_join : (p.join n).parent? = some (ofPieces (trimEnd p.pieces)) := by
  rcases pieces_join hn p with ⟨init, hjoin, hp⟩
  have hkept : trimEnd (init ++ [(some (.name n), n)]) = init ++ [(some (.name n), n)] := by
    simp [trimEnd]
  have htrim : trimEnd p.pieces = trimEnd init := by
    rcases hp with hp | hp <;> simp [trimEnd, hp]
  simp [parent?, hjoin, hkept, htrim]

/-- A path that ends in a name is not changed by trimming. -/
theorem ofPieces_trimEnd_join : ofPieces (trimEnd (p.join n).pieces) = p.join n := by
  rcases pieces_join hn p with ⟨init, hjoin, -⟩
  have hkept : trimEnd (p.join n).pieces = (p.join n).pieces := by
    simp [hjoin, trimEnd]
  rw [hkept, ofPieces_pieces]

theorem parent?_join_join {m : String} (hm : IsName m) :
    ((p.join n).join m).parent? = some (p.join n) := by
  rw [parent?_join hm, ofPieces_trimEnd_join hn]

theorem text_join_ne_empty : (p.join n).text ≠ "" := by
  have hne := hn.ne_empty
  rcases join_cases hn p with ⟨-, h⟩ | ⟨t, -, h⟩ | ⟨-, -, h⟩ <;>
    simp [h, hne, String.append_eq_empty_iff]

end Join

/-! ## Trimmed pieces -/

theorem segmentsOf_intercalate {segs : List String} (hne : segs ≠ [])
    (hslash : ∀ s ∈ segs, '/' ∉ s.toList) : segmentsOf ("/".intercalate segs) = segs := by
  induction segs with
  | nil => exact absurd rfl hne
  | cons s rest ih =>
    have hs := segmentsOf_of_no_slash (hslash s (by simp))
    cases rest with
    | nil => simpa using hs
    | cons t rest =>
      have ih := ih (by simp) fun u hu => hslash u (List.mem_cons_of_mem _ hu)
      have hcons : "/".intercalate (s :: t :: rest) = s ++ "/" ++ "/".intercalate (t :: rest) := by
        simp [String.append_assoc]
      rw [hcons, segmentsOf_append_slash, hs, ih, List.singleton_append]

theorem trimEnd_isPrefix (ps : List Piece) : trimEnd ps <+: ps := by
  unfold trimEnd
  rw [← List.reverse_suffix, List.reverse_reverse]
  exact List.dropWhile_suffix _

theorem trimEnd_trimEnd (ps : List Piece) : trimEnd (trimEnd ps) = trimEnd ps := by
  simp only [trimEnd, List.reverse_reverse]
  rw [List.dropWhile_idempotent]

/-- A single piece that starts a path is the start of its own text. -/
theorem trimEnd_pieces_ofPieces_single {start : Option Component} {first : String}
    {segs : List String} (hslash : '/' ∉ first.toList)
    (hstart : start = if first = "" ∧ segs ≠ [] then some .root
      else if first = "." then some .here else Component.ofSegment? first)
    (htrim : trimEnd [(start, first)] = [(start, first)]) :
    trimEnd (ofPieces [(start, first)]).pieces = [(start, first)] := by
  by_cases hroot : first = "" ∧ segs ≠ []
  · rw [if_pos hroot] at hstart
    rcases hroot with ⟨rfl, -⟩
    subst hstart
    simp [ofPieces, pieces, segmentsOf_slash, trimEnd, Component.ofSegment?]
  · rw [if_neg hroot] at hstart
    have hfirst : first ≠ "" := by
      rintro rfl
      simp [hstart, trimEnd, Component.ofSegment?] at htrim
    have hnoroot : start ≠ some .root := by
      rw [hstart]
      split
      · simp
      · exact ofSegment?_ne_root first
    have htext : ofPieces [(start, first)] = ⟨first⟩ := by
      unfold ofPieces
      split
      · next s h =>
        simp only [List.cons.injEq, Prod.mk.injEq, and_true] at h
        exact absurd h.1 hnoroot
      · simp
    rw [htext, pieces_of_segmentsOf (segmentsOf_of_no_slash hslash)]
    simpa [hfirst, ← hstart] using htrim

/-- The first pieces of a path are the pieces of their own text, when they are trimmed. -/
theorem trimEnd_pieces_ofPieces {p : Path} {ps : List Piece} (hpre : ps <+: p.pieces)
    (htrim : trimEnd ps = ps) : trimEnd (ofPieces ps).pieces = ps := by
  have hslash : ∀ s ∈ ps.map Prod.snd, '/' ∉ s.toList := by
    intro s hs
    have hmem : s ∈ segmentsOf p.text := by
      rw [← map_snd_pieces]
      exact (hpre.map Prod.snd).subset hs
    exact no_slash_of_mem_segmentsOf hmem
  cases ps with
  | nil => simp [ofPieces, pieces, segmentsOf_empty, trimEnd, Component.ofSegment?]
  | cons x rest =>
    rcases x with ⟨start, first⟩
    -- the pieces of the whole path say what the first step is
    obtain ⟨segs, hsegs⟩ : ∃ segs, segmentsOf p.text = first :: segs := by
      rcases hpre.map Prod.snd with ⟨more, hmore⟩
      rw [map_snd_pieces] at hmore
      exact ⟨_, hmore.symm⟩
    rw [pieces_of_segmentsOf hsegs, List.cons_prefix_cons] at hpre
    rcases hpre with ⟨hstart, hrest⟩
    simp only [Prod.mk.injEq, and_true] at hstart
    cases rest with
    | nil => exact trimEnd_pieces_ofPieces_single (hslash first (by simp)) hstart htrim
    | cons y more =>
      have hrest' : ((y :: more).map Prod.snd).map (fun s => (Component.ofSegment? s, s)) =
          y :: more := by
        rcases List.prefix_map_iff.1 hrest with ⟨few, -, hfew⟩
        rw [hfew]
        simp
      have hne : segs ≠ [] := by
        rintro rfl
        simp at hrest
      have htext : segmentsOf (ofPieces ((start, first) :: y :: more)).text =
          first :: (y :: more).map Prod.snd := by
        simp only [ofPieces]
        exact segmentsOf_intercalate (by simp) hslash
      rw [pieces_of_segmentsOf htext, hrest', hstart]
      simp only [ne_eq, hne, List.map_cons, reduceCtorEq, not_false_eq_true, and_true]
      rw [hstart] at htrim
      simpa [hne] using htrim

/-- The parent of a name in a parent is that parent. -/
theorem parent?_join_of_parent? {p dir : Path} (h : p.parent? = some dir) {n : String}
    (hn : IsName n) : (dir.join n).parent? = some dir := by
  rw [parent?_join hn]
  simp only [parent?] at h
  split at h
  · simp at h
  · simp at h
  · simp only [Option.some.injEq] at h
    have hpre : trimEnd (trimEnd p.pieces).dropLast <+: p.pieces :=
      (trimEnd_isPrefix _).trans ((List.dropLast_prefix _).trans (trimEnd_isPrefix _))
    rw [← h, trimEnd_pieces_ofPieces hpre (trimEnd_trimEnd _)]

end Path

/-! ## How the disk reads joined paths -/

namespace Disk

section Join

variable {n : String} (hn : IsName n) (p : Path)
include hn

theorem namesOf_join : namesOf (p.join n).text = namesOf p.text ++ [n] := by
  rcases Path.pieces_join hn p with ⟨init, hjoin, hp⟩
  have hsegs := Path.map_snd_pieces p
  have hne : (n != "") = true := by simpa using hn.ne_empty
  rw [namesOf, namesOf, ← Path.map_snd_pieces, ← Path.map_snd_pieces, hjoin]
  rcases hp with hp | hp <;> simp [hp, List.filter_append, hne]

theorem startOf_join (here : Location) : startOf (p.join n).text here = startOf p.text here := by
  have hslash : n.toList.head? ≠ some '/' := hn.head?_ne_slash
  rcases Path.join_cases hn p with ⟨hp, h⟩ | ⟨t, hp, h⟩ | ⟨hp, -, h⟩
  · simp [startOf, h, hp, hslash]
  · rw [startOf, startOf, h, hp]
    simp [List.head?_append]
  · have hp' : p.text.toList ≠ [] := fun he => hp (String.toList_eq_nil_iff.1 he)
    rcases List.exists_cons_of_ne_nil hp' with ⟨c, cs, hc⟩
    simp [startOf, h, hc]

theorem endsInSlash_join : endsInSlash (p.join n) = false := by
  rcases hn.exists_getLast? with ⟨c, hc⟩
  have hcs : c ≠ '/' := fun he => hn.getLast?_ne_slash (he ▸ hc)
  rcases Path.join_cases hn p with ⟨-, h⟩ | ⟨t, -, h⟩ | ⟨-, -, h⟩ <;>
    simp [endsInSlash, h, List.getLast?_append, List.getLast?_cons, hc, hcs]

end Join

/-- A path leads somewhere if it has no zero character, is not empty and not too long. -/
theorem checkPath_eq_ok_iff {p : Path} : checkPath p = .ok () ↔
    '\x00' ∉ p.text.toList ∧ p.text ≠ "" ∧ p.text.utf8ByteSize ≤ pathLimit := by
  unfold checkPath
  by_cases hzero : '\x00' ∈ p.text.toList
  · simp [hzero]
  · by_cases hempty : p.text = ""
    · simp [hempty]
    · by_cases hsize : pathLimit < p.text.utf8ByteSize
      · simp [hzero, hempty, hsize]
      · simp [hzero, hempty, hsize, Nat.not_lt.1 hsize]

end Disk

namespace Path

/-- After a name a slash is needed. -/
theorem text_join_join {m n : String} (hm : IsName m) (hn : IsName n) (p : Path) :
    ((p.join m).join n).text = (p.join m).text ++ "/" ++ n := by
  rcases join_cases hn (p.join m) with ⟨hempty, -⟩ | ⟨t, ht, -⟩ | ⟨-, -, h⟩
  · exact absurd hempty (text_join_ne_empty hm p)
  · have hslash := Disk.endsInSlash_join hm p
    simp [Disk.endsInSlash, ht] at hslash
  · rw [h]

end Path

/-- A path one name down is no longer than one two names down. -/
theorem Disk.checkPath_join_of_le {p : Path} {folder file n : String} (hfolder : IsName folder)
    (hfile : IsName file) (hn : IsName n) (hzero : '\x00' ∉ n.toList)
    (hle : n.utf8ByteSize ≤ file.utf8ByteSize)
    (h : checkPath ((p.join folder).join file) = .ok ()) : checkPath (p.join n) = .ok () := by
  rcases Path.exists_start p with ⟨start, hstart⟩
  rcases checkPath_eq_ok_iff.1 h with ⟨hzero', -, hlimit⟩
  have hslash : "/".utf8ByteSize = 1 := rfl
  rw [Path.text_join_join hfolder hfile, hstart folder hfolder.head?_ne_slash] at hzero' hlimit
  simp only [String.toList_append, List.mem_append, not_or] at hzero'
  simp only [String.utf8ByteSize_append, hslash] at hlimit
  refine checkPath_eq_ok_iff.2 ⟨?_, Path.text_join_ne_empty hn p, ?_⟩
  · rw [hstart n hn.head?_ne_slash, String.toList_append, List.mem_append, not_or]
    exact ⟨hzero'.1.1.1, hzero⟩
  · rw [hstart n hn.head?_ne_slash, String.utf8ByteSize_append]
    omega

/-! ## Paths of locations -/

namespace Path

theorem ofLocation_cons {n : String} {dir : Location} (hn : IsName n)
    (hdir : ∀ m ∈ dir, IsName m) : ofLocation (n :: dir) = (ofLocation dir).join n := by
  -- joined to the root directory, no slash is put between
  cases dir with
  | nil =>
    have htext : (ofLocation []).text = "/" := by simp [ofLocation]
    rw [join, if_neg hn.head?_ne_slash, if_pos (Or.inr (by rw [htext]; rfl)), htext]
    simp [ofLocation]
  | cons m rest =>
    have hm := hdir m (by simp)
    have htext : (ofLocation (m :: rest)).text.toList.getLast? = m.toList.getLast? := by
      rcases hm.exists_getLast? with ⟨c, hc⟩
      cases hr : rest.reverse with
      | nil => simp [ofLocation, hr, List.getLast?_cons, hc]
      | cons a as =>
        have hsnoc := String.intercalate_append_of_ne_nil (l := a :: as) (m := [m]) (s := "/")
          (by simp) (by simp)
        simp only [ofLocation, List.reverse_cons, hr, hsnoc]
        simp [List.getLast?_append, List.getLast?_cons, hc]
    have hempty : (ofLocation (m :: rest)).text.isEmpty = false := by
      simp [ofLocation]
    have hlast : (ofLocation (m :: rest)).text.toList.getLast? ≠ some '/' := by
      rw [htext]
      exact hm.getLast?_ne_slash
    rw [join, if_neg hn.head?_ne_slash, if_neg (by simp [hempty, hlast])]
    have hsnoc := String.intercalate_append_of_ne_nil (l := (m :: rest).reverse) (m := [n])
      (s := "/") (by simp) (by simp)
    simp only [ofLocation]
    rw [List.reverse_cons, hsnoc]
    simp [String.append_assoc]

theorem parent?_ofLocation_cons {n : String} {dir : Location} (hn : IsName n)
    (hdir : ∀ m ∈ dir, IsName m) : (ofLocation (n :: dir)).parent? = some (ofLocation dir) := by
  rw [ofLocation_cons hn hdir]
  cases dir with
  | nil =>
    rw [parent?_join hn]
    simp [ofLocation, pieces, segmentsOf_slash, trimEnd, ofPieces, Component.ofSegment?]
  | cons m above =>
    rw [ofLocation_cons (hdir m (by simp)) fun k hk => hdir k (List.mem_cons_of_mem _ hk)]
    exact parent?_join_join (hdir m (by simp)) _ hn

theorem segmentsOf_ofLocation {loc : Location} (hne : loc ≠ []) (hloc : ∀ n ∈ loc, IsName n) :
    segmentsOf (ofLocation loc).text = "" :: loc.reverse := by
  have htext : (ofLocation loc).text = "" ++ "/" ++ "/".intercalate loc.reverse := by
    simp [ofLocation]
  have hslash : ∀ n ∈ loc.reverse, '/' ∉ n.toList :=
    fun n hn => (hloc n (List.mem_reverse.1 hn)).no_slash
  rw [htext, segmentsOf_append_slash, segmentsOf_empty, segmentsOf_intercalate (by simpa) hslash]
  rfl

theorem components_ofLocation {loc : Location} (hloc : ∀ n ∈ loc, IsName n) :
    (ofLocation loc).components = .root :: loc.reverse.map .name := by
  induction loc with
  | nil =>
    simp [ofLocation, components, pieces, segmentsOf_slash, Component.ofSegment?]
  | cons n dir ih =>
    have hdir : ∀ m ∈ dir, IsName m := fun m hm => hloc m (List.mem_cons_of_mem _ hm)
    have hn := hloc n (by simp)
    rw [ofLocation_cons hn hdir, components_join hn, ih hdir]
    simp

theorem namesOf_ofLocation {loc : Location} (hloc : ∀ n ∈ loc, IsName n) :
    Disk.namesOf (ofLocation loc).text = loc.reverse := by
  induction loc with
  | nil =>
    simp [ofLocation, Disk.namesOf, segmentsOf_slash]
  | cons n dir ih =>
    have hdir : ∀ m ∈ dir, IsName m := fun m hm => hloc m (List.mem_cons_of_mem _ hm)
    have hn := hloc n (by simp)
    rw [ofLocation_cons hn hdir, Disk.namesOf_join hn, ih hdir]
    simp

theorem startOf_ofLocation (loc here : Location) :
    Disk.startOf (ofLocation loc).text here = [] := by
  simp [Disk.startOf, ofLocation]

theorem ofLocation_inj {a b : Location} (ha : ∀ n ∈ a, IsName n) (hb : ∀ n ∈ b, IsName n)
    (h : ofLocation a = ofLocation b) : a = b := by
  have hnames := congrArg (fun p => Disk.namesOf p.text) h
  simp only [namesOf_ofLocation ha, namesOf_ofLocation hb] at hnames
  exact List.reverse_inj.1 hnames

end Path

end SiteFolders
