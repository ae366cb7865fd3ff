import SiteFolders.Proofs.Path.Relative
import SiteFolders.Proofs.Reference.PlainNames

/-!
# Names that differ in letter case

The passes for contexts compare names in any letter case, so where the names of two moved files
differ in nothing else, the one that is taken first gets the references of both. An update follows a
value from reference to reference (`Follows`): each moved file, in the order in which files are
taken, puts its own reference in place of a value that names it in any letter case.
-/

namespace SiteFolders.Reference

open SiteFolders.Text Regex

/-- The value is the former name of the file in any letter case, after leading segments. -/
def Moved.NamedBy (file : Moved) (value : List Char) : Prop :=
  ∃ ld m, value = ld ++ m ∧ Matches lead ld ∧ Spelled file.oldName.toList m

theorem namedBy_iff {file : Moved} {value : List Char} (hname : StartsName file.oldName.toList)
    (hvalue : StartsName value) : file.NamedBy value ↔ Spelled file.oldName.toList value := by
  constructor
  · rintro ⟨ld, m, rfl, hld, hm⟩
    have hstarts : StartsName m :=
      ⟨fun h => hname.1 ((hm.head?_eq_iff (Or.inl (by decide))).1 h),
        fun h => hname.2 ((hm.head?_eq_iff (Or.inl (by decide))).1 h)⟩
    obtain ⟨rfl, -⟩ := eq_of_lead_append hld .done hstarts hvalue rfl
    exact hm
  · intro h
    exact ⟨[], value, rfl, .done, h⟩

/-- What becomes of a value as the moved files of a list are taken one after another. -/
inductive Follows (dir : Path) : List Moved → List Char → List Char → Prop where
  | done {v} : Follows dir [] v v
  | named {file rest v w} (h : file.NamedBy v) (hrest : Follows dir rest (file.reference dir) w) :
    Follows dir (file :: rest) v w
  | other {file rest v w} (h : ¬ file.NamedBy v) (hrest : Follows dir rest v w) :
    Follows dir (file :: rest) v w

/-- The first file that the value names decides, if no later one is named by its reference. -/
theorem Follows.eq_reference {dir : Path} {first : Moved} {later : List Moved} {v w : List Char}
    (hfirst : first.NamedBy v) (hlater : ∀ m ∈ later, ¬ m.NamedBy (first.reference dir)) :
    ∀ {earlier : List Moved}, (∀ m ∈ earlier, ¬ m.NamedBy v) →
      Follows dir (earlier ++ first :: later) v w → w = first.reference dir
  | [], _, h => by
    have hstays : ∀ {files : List Moved}, (∀ m ∈ files, ¬ m.NamedBy (first.reference dir)) →
        Follows dir files (first.reference dir) w → w = first.reference dir := by
      intro files hfiles h
      induction files with
      | nil =>
        cases h
        rfl
      | cons file rest ih =>
        cases h with
        | named hnamed _ => exact absurd hnamed (hfiles file (by simp))
        | other _ hrest => exact ih (fun m hm => hfiles m (List.mem_cons_of_mem _ hm)) hrest
    cases h with
    | named _ hrest => exact hstays hlater hrest
    | other hnot _ => exact absurd hfirst hnot
  | file :: earlier, hearlier, h => by
    cases h with
    | named hnamed _ => exact absurd hnamed (hearlier file (by simp))
    | other _ hrest =>
      exact Follows.eq_reference hfirst hlater
        (fun m hm => hearlier m (List.mem_cons_of_mem _ hm)) hrest

/-- A value that stands whole in its quotes: no recorded name is read in part of it. -/
structure StandsWhole (moved : List Moved) (q : Char) (value : List Char) : Prop where
  isValue : IsValue q value
  onlyWhole : ∀ m ∈ moved, OnlyWhole m.oldName.toList (q :: (value ++ [q]))

section

variable {kw : List Char} {q : Char} {dir : Path} (loose : Bool) (hkey : Key kw) (hq : IsQuote q)
include hkey hq

/-- What the passes for one moved file do to a value that stands whole. -/
theorem turns_of_standsWhole {moved : List Moved} {file : Moved} {value : List Char}
    (hfile : file ∈ moved) (hname : Apart q file.oldName.toList)
    (hvalue : StandsWhole moved q value) (hreference : StandsWhole moved q (file.reference dir)) :
    (file.NamedBy value → Turns kw q (· = value) (· = file.reference dir)
      (writeAll (passes loose) file.oldName.toList (file.reference dir))) ∧
    (¬ file.NamedBy value → Turns kw q (· = value) (· = value)
      (writeAll (passes loose) file.oldName.toList (file.reference dir))) := by
  constructor
  · intro hnamed
    exact turns_of_onlyWhole hkey hq hname hvalue.isValue loose hreference.isValue
      (hvalue.onlyWhole file hfile) (hreference.onlyWhole file hfile) hnamed
  · intro hnot
    refine turns_of_not_standsIn hkey hq hname hvalue.isValue loose fun hstands => hnot ?_
    exact of_standsIn hq (hvalue.onlyWhole file hfile) hstands

/-- Taking moved files one after another follows the value. -/
theorem exists_follows {moved : List Moved} (hnames : ∀ m ∈ moved, Apart q m.oldName.toList)
    (hreference : ∀ m ∈ moved, StandsWhole moved q (m.reference dir)) :
    ∀ {files : List Moved} {value : List Char}, (∀ m ∈ files, m ∈ moved) →
      StandsWhole moved q value → ∃ w, Follows dir files value w ∧
        Turns kw q (· = value) (· = w) fun text => files.foldl (fun text file =>
          writeAll (passes loose) file.oldName.toList (file.reference dir) text) text
  | [], value, _, _ => ⟨value, .done, Turns.rfl⟩
  | file :: rest, value, hfiles, hvalue => by
    have hfile := hfiles file (by simp)
    have hrest : ∀ m ∈ rest, m ∈ moved := fun m hm => hfiles m (List.mem_cons_of_mem _ hm)
    obtain ⟨hnamed, hother⟩ := turns_of_standsWhole loose hkey hq hfile (hnames file hfile) hvalue
      (hreference file hfile)
    by_cases h : file.NamedBy value
    · obtain ⟨w, hfollows, hturns⟩ :=
        exists_follows hnames hreference hrest (hreference file hfile)
      exact ⟨w, .named h hfollows, (hnamed h).trans hturns⟩
    · obtain ⟨w, hfollows, hturns⟩ := exists_follows hnames hreference hrest hvalue
      exact ⟨w, .other h hfollows, (hother h).trans hturns⟩

end

/-- A plain name stands whole in quotes. -/
theorem standsWhole_of_isPlain {moved : List Moved} {q : Char} (hq : IsQuote q) {name : String}
    (h : IsPlain name) : StandsWhole moved q name.toList := by
  have hplain := plainValue_of_isPlain h
  refine ⟨⟨fun hmem => (hplain q hmem).1 (Or.inl hq), fun c hc => ?_⟩, fun m _ =>
    onlyWhole_of_plain hplain hq⟩
  have hchar := h c (List.mem_of_getLast? hc)
  exact ⟨hchar.ne_of_not (by decide), hchar.ne_of_not (by decide), hchar.not_isBlank⟩

/-- A reference into a folder stands whole in quotes, from every directory below the root, if
nothing in the names of the folder and the file opens or closes a mention. -/
theorem standsWhole_reference {moved : List Moved} {q : Char} (hq : IsQuote q) {m : Moved}
    {file folder : String} {home below : Location} (hhome : ∀ n ∈ home, IsName n)
    (hbelow : ∀ n ∈ below, IsName n) (hfolder : IsName folder) (hfile : IsName file)
    (hapart : ¬ (file :: folder :: home) <:+ below ++ home)
    (hbackslash : '\\' ∉ folder.toList ++ file.toList)
    (htarget : m.target = Path.ofLocation (file :: folder :: home))
    (hplain : PlainValue file.toList) (hplainFolder : PlainValue folder.toList)
    (hsign : file.toList.getLast? ≠ some '=') :
    StandsWhole moved q (m.reference (Path.ofLocation (below ++ home))) := by
  obtain ⟨ups, n, htext, hn, -⟩ :=
    Path.reference_folder hhome hbelow hfolder hfile hapart hbackslash
  have hreference : m.reference (Path.ofLocation (below ++ home)) =
      (List.replicate ups "../".toList).flatten ++ n := by
    rw [Moved.reference, htarget, htext]
  have hslash : PlainValue ['/'] := by decide
  -- with the folder or without it, the reference is plain and ends as the file does
  have hwhole : PlainValue n ∧ n.getLast? = file.toList.getLast? := by
    have hne : file.toList ≠ [] := by simpa using hfile.ne_empty
    rcases hn with rfl | rfl
    · exact ⟨hplain, rfl⟩
    · refine ⟨hplainFolder.append (hslash.append hplain), ?_⟩
      rw [List.append_cons, List.getLast?_append_of_ne_nil _ hne]
  have hvalue : PlainValue (m.reference (Path.ofLocation (below ++ home))) := by
    rw [hreference]
    exact (plainValue_lead (matches_lead_ups ups)).append hwhole.1
  refine ⟨⟨fun hmem => (hvalue q hmem).1 (Or.inl hq), fun c hc => ?_⟩, fun m _ =>
    onlyWhole_of_plain hvalue hq⟩
  have hmem := hvalue c (List.mem_of_getLast? hc)
  refine ⟨?_, fun h => hmem.1 (Or.inr (Or.inl h)), ?_⟩
  · rintro rfl
    have hne : n ≠ [] := by
      rintro rfl
      have hlast := hwhole.2
      rw [List.getLast?_nil, eq_comm, List.getLast?_eq_none_iff] at hlast
      exact hfile.ne_empty (by simpa using hlast)
    rw [hreference, List.getLast?_append_of_ne_nil _ hne, hwhole.2] at hc
    exact hsign hc
  · cases hblank : isBlank c with
    | false => rfl
    | true => exact absurd (Or.inr (Or.inr hblank)) hmem.1

/-- An attribute with the former name of a moved file is followed through the moved files in the
order in which they are taken. So it becomes the reference to the first of them that it names in any
letter case, as long as no later one is named by that reference in turn. -/
theorem update_letterCase {moved : List Moved} {dir : Path} {kw : List Char} {q : Char}
    (loose : Bool) (hkey : Key kw) (hq : IsQuote q) (hplain : ∀ m ∈ moved, IsPlain m.oldName)
    (hreference : ∀ m ∈ moved, StandsWhole moved q (m.reference dir)) {file : Moved}
    (hfile : file ∈ moved) :
    ∃ value, Follows dir (inOrder moved) file.oldName.toList value ∧
      (∀ pre post, ∃ pre' post', (update loose moved dir (q :: post)).text = q :: post' ∧
        (update loose moved dir
          (withAttribute pre kw q file.oldName.toList (q :: post))).text =
            withAttribute pre' kw q value (q :: post')) ∧
      ∀ earlier first later, inOrder moved = earlier ++ first :: later →
        (∀ m ∈ earlier, ¬ m.NamedBy file.oldName.toList) → first.NamedBy file.oldName.toList →
        (∀ m ∈ later, ¬ m.NamedBy (first.reference dir)) → value = first.reference dir := by
  have hnames : ∀ m ∈ moved, Apart q m.oldName.toList := fun m hm =>
    apart_of_isPlain hq (hplain m hm)
  have horder : ∀ m ∈ inOrder moved, m ∈ moved := fun m hm => List.mem_mergeSort.1 hm
  obtain ⟨value, hfollows, hturns⟩ := exists_follows loose hkey hq hnames hreference horder
    (standsWhole_of_isPlain hq (hplain file hfile))
  refine ⟨value, hfollows, ?_, ?_⟩
  · intro pre post
    obtain ⟨pre', value', post', rfl, hpost, htext⟩ := hturns _ rfl pre post
    refine ⟨pre', post', ?_, ?_⟩
    · rw [text_update]
      exact hpost
    · rw [text_update]
      exact htext
  · intro earlier first later hsplit hearlier hfirst hlater
    rw [hsplit] at hfollows
    exact hfollows.eq_reference hfirst hlater hearlier

/-- Two pictures whose names differ in letter case. -/
def logos : List Moved :=
  [⟨"Logo.png", "img/Logo.png", ⟨"/site/img/Logo.png"⟩⟩,
    ⟨"logo.png", "img/logo.png", ⟨"/site/img/logo.png"⟩⟩]

theorem inOrder_logos : inOrder logos = logos := by
  rw [inOrder, List.mergeSort_of_pairwise (by decide +kernel)]

theorem standsWhole_logos : ∀ m ∈ logos, StandsWhole logos '"' (m.reference ⟨"/site"⟩) := by
  intro m hm
  have hdir : Path.ofLocation ([] ++ ["site"]) = ⟨"/site"⟩ := by decide +kernel
  have htarget : ∃ name : String, IsName name ∧ '\\' ∉ "img".toList ++ name.toList ∧
      PlainValue name.toList ∧ name.toList.getLast? ≠ some '=' ∧
      m.target = Path.ofLocation [name, "img", "site"] := by
    simp only [logos, List.mem_cons, List.not_mem_nil, or_false] at hm
    rcases hm with rfl | rfl
    · exact ⟨"Logo.png", by decide +kernel⟩
    · exact ⟨"logo.png", by decide +kernel⟩
  obtain ⟨name, hname, hbackslash, hplain, hsign, htarget⟩ := htarget
  rw [← hdir]
  exact standsWhole_reference (Or.inl rfl) (by decide) (List.forall_mem_nil _) (by decide) hname
    (fun h => absurd h.length_le (by simp)) hbackslash htarget hplain (by decide) hsign

/-- The name of the second picture is followed to the one that is taken first. -/
theorem update_letterCase_of_logos : ∃ pre' post',
    (update true logos ⟨"/site"⟩ ('"' :: ">".toList)).text = '"' :: post' ∧
    (update true logos ⟨"/site"⟩ (withAttribute "<img ".toList "src".toList '"'
      "logo.png".toList ('"' :: ">".toList))).text =
        withAttribute pre' "src".toList '"' "img/Logo.png".toList ('"' :: post') := by
  have hstarts : ∀ m ∈ logos, StartsName m.oldName.toList := by decide
  have hspelled : Spelled logos[0].oldName.toList logos[1].oldName.toList := by decide +kernel
  obtain ⟨hfirst, hsecond⟩ : Moved.reference ⟨"/site"⟩ logos[0] = "img/Logo.png".toList ∧
      ¬ Spelled logos[1].oldName.toList "img/Logo.png".toList := by decide +kernel
  have hfile : logos[1] ∈ logos := by decide
  obtain ⟨value, -, htext, hvalue⟩ := update_letterCase true (Or.inr (.refl _)) (Or.inl rfl)
    (by decide) standsWhole_logos hfile
  have hsame : value = Moved.reference ⟨"/site"⟩ logos[0] := by
    refine hvalue [] logos[0] [logos[1]] inOrder_logos (by simp) ?_ ?_
    · rw [namedBy_iff (hstarts _ (by decide)) (hstarts _ hfile)]
      exact hspelled
    · rintro m hm hnamed
      obtain rfl := List.mem_singleton.1 hm
      rw [hfirst, namedBy_iff (hstarts _ hfile) (by decide)] at hnamed
      exact hsecond hnamed
  rw [hsame, hfirst] at htext
  exact htext _ _

/-- The picture that is not taken first loses the references to it. -/
theorem update_logos : logos.Pairwise (fun m n => m.oldName ≠ n.oldName) ∧
    (∀ m ∈ logos, IsPlain m.oldName) ∧
    (update true logos ⟨"/site"⟩ "<img src=\"logo.png\">".toList).text =
      "<img src=\"img/Logo.png\">".toList := by
  refine ⟨by decide, by decide, ?_⟩
  rw [update, inOrder_logos]
  decide +kernel

end SiteFolders.Reference
