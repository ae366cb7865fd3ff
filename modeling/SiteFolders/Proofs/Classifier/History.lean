import SiteFolders.Classifier
import SiteFolders.Proofs.Path.FileNames
import SiteFolders.Proofs.Text.Lowercase

/-!
# Classification after any changes

A classifier starts with the standard tables and is changed by mapping extensions and reserving
names. `Ruled` says in rules which category a name has after a list of such changes, without the
tables that the changes build, and `classify_after` that this is what `classify` gives. Changes that
do not concern the same extension can change places: the tables they build are alike (`Alike`).
-/

namespace SiteFolders.Classifier

open SiteFolders.Text

/-! ## Changes -/

/-- A change of the tables. -/
inductive Change where
  | map (extension : String) (category : Option Category)
  | reserve (name : String)

/-- The classifier after one change. -/
def changed (c : Classifier) : Change → Classifier
  | .map extension category => c.map extension category
  | .reserve name => c.reserve name

/-- The classifier after changes to the standard one. -/
def after (changes : List Change) : Classifier := changes.foldl changed standard

/-! ## The rules -/

/-- Dot files stay, and so do names that are reserved from the start or at any time. -/
inductive Stays (changes : List Change) (name : String) : Prop
  | dotFile (h : name.toList.head? = some '.')
  | standard (h : name ∈ standardReserved)
  | reserved (h : .reserve name ∈ changes)

/-- No change maps an extension with this key. -/
def Unmapped (changes : List Change) (key : String) : Prop :=
  ∀ extension category, .map extension category ∈ changes → extensionKey extension ≠ key

/-- The last change that maps an extension with this key gives it the category. -/
def LastMapped (changes : List Change) (key : String) (category : Option Category) : Prop :=
  ∃ earlier extension later, changes = earlier ++ .map extension category :: later ∧
    extensionKey extension = key ∧ Unmapped later key

/-- A name, in any letter case, that shared fragments bear. -/
inductive IsFragmentName (name : String) : Prop
  | whole (h : lowercase name ∈ fragmentNames)
  | start {s : String} (hs : s ∈ fragmentStarts) (h : s.toList <+: (lowercase name).toList)
  | ending {s : String} (hs : s ∈ fragmentEnds) (h : s.toList <:+ (lowercase name).toList)

/-- A name that may move and whose extension has a key that no table holds. -/
structure Undecided (changes : List Change) (name key : String) : Prop where
  moves : ¬ Stays changes name
  ending : ∃ ending, FileName.EndsIn name ending ∧ lowercase ending = key
  unmapped : Unmapped changes key
  unlisted : standardExtensions.lookup key = none

/-- The category of a name after changes, `none` for a name that stays. -/
inductive Ruled (changes : List Change) (name : String) : Option Category → Prop
  | stays (h : Stays changes name) : Ruled changes name none
  | mapped {ending : String} {category : Option Category} (hmoves : ¬ Stays changes name)
      (hending : FileName.EndsIn name ending)
      (h : LastMapped changes (lowercase ending) category) : Ruled changes name category
  | standard {ending : String} {category : Option Category} (hmoves : ¬ Stays changes name)
      (hending : FileName.EndsIn name ending) (hunmapped : Unmapped changes (lowercase ending))
      (h : standardExtensions.lookup (lowercase ending) = some category) :
      Ruled changes name category
  | fragment (h : Undecided changes name "php") (hname : IsFragmentName name) :
      Ruled changes name (some .includes)
  | script (h : Undecided changes name "php") (hname : ¬ IsFragmentName name) :
      Ruled changes name none
  | page {key : String} (h : Undecided changes name key) (hpage : key = "html" ∨ key = "htm") :
      Ruled changes name none
  | other {key : String} (h : Undecided changes name key) (hphp : key ≠ "php")
      (hpage : ¬ (key = "html" ∨ key = "htm")) : Ruled changes name (some .files)

/-! ## The tables after changes -/

theorem lookup_map (c : Classifier) (extension key : String) (category : Option Category) :
    (c.map extension category).extensions.lookup key =
      if extensionKey extension = key then some category else c.extensions.lookup key := by
  rw [Classifier.map, List.lookup_cons]
  by_cases heq : extensionKey extension = key
  · rw [if_pos heq, heq, beq_self_eq_true]
  · rw [if_neg heq, beq_false_of_ne fun h => heq h.symm]

theorem lookup_reserve (c : Classifier) (name key : String) :
    (c.reserve name).extensions.lookup key = c.extensions.lookup key := rfl

theorem mem_map (c : Classifier) (extension name : String) (category : Option Category) :
    name ∈ (c.map extension category).reserved ↔ name ∈ c.reserved := Iff.rfl

theorem mem_reserve (c : Classifier) (reserved name : String) :
    name ∈ (c.reserve reserved).reserved ↔ name = reserved ∨ name ∈ c.reserved := List.mem_cons

/-- Changes that do not map a key leave its entry as it is. -/
theorem lookup_foldl_of_unmapped {changes : List Change} {key : String}
    (h : Unmapped changes key) (c : Classifier) :
    (changes.foldl changed c).extensions.lookup key = c.extensions.lookup key := by
  induction changes generalizing c with
  | nil => rfl
  | cons first rest ih =>
    rw [List.foldl_cons,
      ih fun extension category hmem => h extension category (List.mem_cons_of_mem first hmem)]
    cases first with
    | map extension category =>
      rw [changed, lookup_map, if_neg (h extension category List.mem_cons_self)]
    | reserve name => rw [changed, lookup_reserve]

/-- The last change that maps a key makes its entry. -/
theorem lookup_after_of_lastMapped {changes : List Change} {key : String}
    {category : Option Category} (h : LastMapped changes key category) :
    (after changes).extensions.lookup key = some category := by
  obtain ⟨earlier, extension, later, rfl, hkey, hlater⟩ := h
  rw [after, List.foldl_append, List.foldl_cons, lookup_foldl_of_unmapped hlater, changed,
    lookup_map, if_pos hkey]

/-- A key is mapped by some change last, or by none. -/
theorem unmapped_or_lastMapped (changes : List Change) (key : String) :
    Unmapped changes key ∨ ∃ category, LastMapped changes key category := by
  induction changes with
  | nil => exact Or.inl fun _ _ hmem => by simp at hmem
  | cons first rest ih =>
    -- a change among the rest is later than the first one, so it is asked first
    rcases ih with hrest | ⟨category, earlier, extension, later, rfl, hkey, hlater⟩
    · by_cases hfirst : ∃ extension category, first = .map extension category ∧
        extensionKey extension = key
      · obtain ⟨extension, category, rfl, hkey⟩ := hfirst
        exact Or.inr ⟨category, [], extension, rest, rfl, hkey, hrest⟩
      · refine Or.inl fun extension category hmem hkey => ?_
        rcases List.mem_cons.1 hmem with heq | hmem
        · exact hfirst ⟨extension, category, heq.symm, hkey⟩
        · exact hrest extension category hmem hkey
    · exact Or.inr ⟨category, first :: earlier, extension, later, rfl, hkey, hlater⟩

theorem mem_reserved_foldl (changes : List Change) (c : Classifier) (name : String) :
    name ∈ (changes.foldl changed c).reserved ↔ .reserve name ∈ changes ∨ name ∈ c.reserved := by
  induction changes generalizing c with
  | nil => simp
  | cons first rest ih =>
    rw [List.foldl_cons, ih]
    cases first with
    | map extension category => simp [changed, mem_map]
    | reserve reserved =>
      simp only [changed, mem_reserve, List.mem_cons, Change.reserve.injEq]
      tauto

theorem stays_after {changes : List Change} {name : String} :
    (after changes).stays name = true ↔ Stays changes name := by
  rw [Classifier.stays, Bool.or_eq_true, beq_iff_eq, List.contains_iff_mem, after,
    mem_reserved_foldl]
  constructor
  · rintro (hdot | hchange | hstandard)
    · exact .dotFile hdot
    · exact .reserved hchange
    · exact .standard hstandard
  · intro h
    cases h with
    | dotFile hdot => exact Or.inl hdot
    | standard hstandard => exact Or.inr (Or.inr hstandard)
    | reserved hchange => exact Or.inr (Or.inl hchange)

theorem isFragment_iff {name : String} : isFragment name = true ↔ IsFragmentName name := by
  simp only [isFragment, Bool.or_eq_true, List.contains_iff_mem, List.any_eq_true,
    List.isPrefixOf_iff_prefix, List.isSuffixOf_iff_suffix]
  constructor
  · rintro ((hwhole | ⟨s, hs, hstart⟩) | ⟨s, hs, hending⟩)
    · exact .whole hwhole
    · exact .start hs hstart
    · exact .ending hs hending
  · intro h
    cases h with
    | whole hwhole => exact Or.inl (Or.inl hwhole)
    | start hs hstart => exact Or.inl (Or.inr ⟨_, hs, hstart⟩)
    | ending hs hending => exact Or.inr ⟨_, hs, hending⟩

/-! ## The rules decide -/

/-- The category of a name that may move. An ending is looked up in lower case. -/
theorem classify_of_moves {changes : List Change} {name ending : String}
    (hmoves : ¬ Stays changes name) (hending : FileName.EndsIn name ending) :
    (after changes).classify name =
      ((after changes).extensions.lookup (lowercase ending)).getD
        (fallback name (lowercase ending)) := by
  have hstays : ¬ (after changes).stays name = true := fun h => hmoves (stays_after.1 h)
  unfold classify entry?
  rw [if_neg hstays, FileName.endsIn_iff.1 hending]
  simp only [lowercase_lowercase]

theorem classify_of_undecided {changes : List Change} {name key : String}
    (h : Undecided changes name key) : (after changes).classify name = fallback name key := by
  obtain ⟨ending, hending, rfl⟩ := h.ending
  have hentry : (after changes).extensions.lookup (lowercase ending) = none :=
    (lookup_foldl_of_unmapped h.unmapped standard).trans h.unlisted
  rw [classify_of_moves h.moves hending, hentry, Option.getD_none]

theorem classify_of_ruled {changes : List Change} {name : String} {category : Option Category}
    (h : Ruled changes name category) : (after changes).classify name = category := by
  cases h with
  | stays h => exact classify_of_stays (stays_after.2 h)
  | mapped hmoves hending h =>
    rw [classify_of_moves hmoves hending, lookup_after_of_lastMapped h, Option.getD_some]
  | standard hmoves hending hunmapped h =>
    have hentry := (lookup_foldl_of_unmapped hunmapped standard).trans h
    rw [classify_of_moves hmoves hending, after, hentry, Option.getD_some]
  | fragment h hname =>
    rw [classify_of_undecided h, fallback, if_pos rfl, if_pos (isFragment_iff.2 hname)]
  | script h hname =>
    rw [classify_of_undecided h, fallback, if_pos rfl, if_neg (mt isFragment_iff.1 hname)]
  | page h hpage =>
    rw [classify_of_undecided h, fallback, if_neg, if_pos hpage]
    rcases hpage with rfl | rfl <;> decide
  | other h hphp hpage => rw [classify_of_undecided h, fallback, if_neg hphp, if_neg hpage]

/-- Some rule applies to every name. -/
theorem exists_ruled (changes : List Change) (name : String) :
    ∃ category, Ruled changes name category := by
  by_cases hmoves : Stays changes name
  · exact ⟨none, .stays hmoves⟩
  have hending : FileName.EndsIn name (FileName.suffix name) := FileName.endsIn_iff.2 rfl
  rcases unmapped_or_lastMapped changes (lowercase (FileName.suffix name)) with
    hunmapped | ⟨category, hmapped⟩
  · cases hlisted : standardExtensions.lookup (lowercase (FileName.suffix name)) with
    | some category => exact ⟨category, .standard hmoves hending hunmapped hlisted⟩
    | none =>
      -- no entry for the ending: the name itself decides, and only for scripts and pages
      have h : Undecided changes name (lowercase (FileName.suffix name)) :=
        ⟨hmoves, ⟨_, hending, rfl⟩, hunmapped, hlisted⟩
      by_cases hphp : lowercase (FileName.suffix name) = "php"
      · rw [hphp] at h
        by_cases hname : IsFragmentName name
        · exact ⟨_, .fragment h hname⟩
        · exact ⟨_, .script h hname⟩
      · by_cases hpage : lowercase (FileName.suffix name) = "html" ∨
          lowercase (FileName.suffix name) = "htm"
        · exact ⟨_, .page h hpage⟩
        · exact ⟨_, .other h hphp hpage⟩
  · exact ⟨category, .mapped hmoves hending hmapped⟩

theorem classify_eq_iff {changes : List Change} {name : String} {category : Option Category} :
    (after changes).classify name = category ↔ Ruled changes name category := by
  constructor
  · rintro rfl
    obtain ⟨category, h⟩ := exists_ruled changes name
    rwa [classify_of_ruled h]
  · exact classify_of_ruled

/-! ## Changes that change places -/

/-- The changes do not map extensions with one key. -/
def Change.Apart : Change → Change → Prop
  | .map a _, .map b _ => extensionKey a ≠ extensionKey b
  | _, _ => True

/-- Tables with the same entries and the same reserved names. -/
structure Alike (c c' : Classifier) : Prop where
  lookup_eq : ∀ key, c.extensions.lookup key = c'.extensions.lookup key
  mem_iff : ∀ name, name ∈ c.reserved ↔ name ∈ c'.reserved

theorem Alike.changed {c c' : Classifier} (h : Alike c c') (a : Change) :
    Alike (c.changed a) (c'.changed a) := by
  constructor
  · intro key
    cases a <;> simp only [Classifier.changed, lookup_map, lookup_reserve, h.lookup_eq]
  · intro name
    cases a <;> simp only [Classifier.changed, mem_map, mem_reserve, h.mem_iff]

/-- What tables have alike, they still have after the same changes. -/
theorem Alike.foldl {c c' : Classifier} (h : Alike c c') (changes : List Change) :
    Alike (changes.foldl Classifier.changed c) (changes.foldl Classifier.changed c') := by
  induction changes generalizing c c' with
  | nil => exact h
  | cons first rest ih => exact ih (h.changed first)

theorem Alike.classify_eq {c c' : Classifier} (h : Alike c c') (name : String) :
    c.classify name = c'.classify name := by
  have hstays : c.stays name = c'.stays name := by
    rw [Bool.eq_iff_iff]
    simp only [Classifier.stays, Bool.or_eq_true, List.contains_iff_mem, h.mem_iff]
  simp only [classify, entry?, hstays, h.lookup_eq]

theorem alike_swap {a b : Change} (h : a.Apart b) (c : Classifier) :
    Alike ((c.changed b).changed a) ((c.changed a).changed b) := by
  constructor
  · intro key
    cases a with
    | map a categoryA =>
      cases b with
      | map b categoryB =>
        simp only [changed, lookup_map]
        by_cases ha : extensionKey a = key
        · rw [if_pos ha, if_neg fun hb => h (ha.trans hb.symm), if_pos ha]
        · rw [if_neg ha, if_neg ha]
      | reserve name => simp only [changed, lookup_map, lookup_reserve]
    | reserve name => cases b <;> simp only [changed, lookup_map, lookup_reserve]
  · intro name
    cases a <;> cases b <;> simp only [changed, mem_map, mem_reserve, or_left_comm]

theorem classify_swap {earlier later : List Change} {a b : Change} (h : a.Apart b)
    (name : String) : (after (earlier ++ b :: a :: later)).classify name =
      (after (earlier ++ a :: b :: later)).classify name := by
  simp only [after, List.foldl_append, List.foldl_cons]
  exact ((alike_swap h _).foldl later).classify_eq name

/-! ## Keys with a dot -/

/-- The key of an extension has no dot. -/
def dotless (extension : String) : Bool := !(extensionKey extension).toList.contains '.'

/-- The change does not map a key with a dot. -/
def Change.dotless : Change → Bool
  | .map extension _ => Classifier.dotless extension
  | .reserve _ => true

theorem lookup_foldl_dotless (changes : List Change) {c c' : Classifier} {key : String}
    (hkey : '.' ∉ key.toList) (h : c.extensions.lookup key = c'.extensions.lookup key) :
    ((changes.filter Change.dotless).foldl changed c).extensions.lookup key =
      (changes.foldl changed c').extensions.lookup key := by
  induction changes generalizing c c' with
  | nil => exact h
  | cons first rest ih =>
    cases first with
    | map extension category =>
      by_cases hkeep : (Change.map extension category).dotless = true
      · rw [List.filter_cons_of_pos hkeep, List.foldl_cons, List.foldl_cons]
        apply ih
        rw [changed, changed, lookup_map, lookup_map, h]
      · -- the change that is left out maps another key
        rw [List.filter_cons_of_neg hkeep, List.foldl_cons]
        apply ih
        have hne : extensionKey extension ≠ key := by
          rintro rfl
          exact hkeep (by simpa [Change.dotless, dotless] using hkey)
        rw [changed, lookup_map, if_neg hne, h]
    | reserve name =>
      rw [List.filter_cons_of_pos rfl, List.foldl_cons, List.foldl_cons]
      apply ih
      rw [changed, changed, lookup_reserve, lookup_reserve, h]

/-- An ending has no dot, so mapping a key with a dot makes no difference to any name. -/
theorem classify_dotless (changes : List Change) (name : String) :
    (after (changes.filter Change.dotless)).classify name = (after changes).classify name := by
  have hstays : Stays (changes.filter Change.dotless) name ↔ Stays changes name := by
    rw [← stays_after, ← stays_after]
    simp [Classifier.stays, after, mem_reserved_foldl, Change.dotless]
  have hending : FileName.EndsIn name (FileName.suffix name) := FileName.endsIn_iff.2 rfl
  by_cases hmoves : Stays changes name
  · rw [classify_of_stays (stays_after.2 hmoves),
      classify_of_stays (stays_after.2 (hstays.2 hmoves))]
  · have hdot : '.' ∉ (lowercase (FileName.suffix name)).toList := by
      rw [dot_mem_lowercase_iff]
      exact hending.dot_notMem
    rw [classify_of_moves hmoves hending, classify_of_moves (mt hstays.1 hmoves) hending, after,
      lookup_foldl_dotless changes hdot rfl, after]

/-! ## Letter case of the ending -/

/-- The lower-case form of a PHP file's name, but for letters beyond ASCII, does not depend on the
letter case of its ending. -/
theorem agree_lowercase_php (stem : String) {ending : String} (h : lowercase ending = "php") :
    Agree (lowercase (stem ++ "." ++ ending)).toList
      (stem.toList.flatMap lowerInside ++ ".php".toList) := by
  have hending : ending.toList.flatMap lowerInside = "php".toList := by
    have hagree := agree_lowerAfter [] ending.toList
    have hlower : lowerAfter [] ending.toList = "php".toList := by
      rw [← h, lowercase, String.toList_ofList]
    rw [hlower] at hagree
    exact hagree.symm.eq_of_ascii (by simp)
  have hname := agree_lowerAfter [] (stem ++ "." ++ ending).toList
  have hdot : lowerInside '.' = ['.'] := by decide
  rw [lowercase, String.toList_ofList]
  simpa [List.flatMap_append, hending, hdot] using hname

/-- The tables of fragments hold texts of ASCII. -/
theorem ascii_of_mem_tables {s : String} (h : s ∈ fragmentNames ++ (fragmentStarts ++ fragmentEnds)) :
    ∀ c ∈ s.toList, c.toNat < 0x80 := by
  -- as truth values, since a quantifier over characters would be decided by going through them all
  have hall : ∀ s ∈ fragmentNames ++ (fragmentStarts ++ fragmentEnds),
      (s.toList.all fun c => decide (c.toNat < 0x80)) = true := by decide +kernel
  simpa using hall s h

/-- So they look only at what names whose lower-case forms agree with one text have in common. -/
theorem isFragmentName_congr {name name' : String} {common : List Char}
    (h : Agree (lowercase name).toList common) (h' : Agree (lowercase name').toList common) :
    IsFragmentName name → IsFragmentName name' := by
  intro hname
  cases hname with
  | whole hmem =>
    have hascii := ascii_of_mem_tables (List.mem_append_left _ hmem)
    have heq : lowercase name' = lowercase name :=
      String.toList_inj.1 ((h'.eq_iff hascii).2 ((h.eq_iff hascii).1 rfl))
    exact .whole (heq ▸ hmem)
  | start hs hstart =>
    have hascii := ascii_of_mem_tables (List.mem_append_right _ (List.mem_append_left _ hs))
    exact .start hs ((h'.prefix_iff hascii).2 ((h.prefix_iff hascii).1 hstart))
  | ending hs hending =>
    have hascii := ascii_of_mem_tables (List.mem_append_right _ (List.mem_append_right _ hs))
    exact .ending hs ((h'.suffix_iff hascii).2 ((h.suffix_iff hascii).1 hending))

theorem isFragment_ending {stem ending ending' : String} (h : lowercase ending = "php")
    (h' : lowercase ending' = "php") :
    isFragment (stem ++ "." ++ ending) = isFragment (stem ++ "." ++ ending') := by
  have hagree := agree_lowercase_php stem h
  have hagree' := agree_lowercase_php stem h'
  rw [Bool.eq_iff_iff, isFragment_iff, isFragment_iff]
  exact ⟨isFragmentName_congr hagree hagree', isFragmentName_congr hagree' hagree⟩

theorem fallback_ending {stem ending ending' key : String} (h : lowercase ending = key)
    (h' : lowercase ending' = key) :
    fallback (stem ++ "." ++ ending) key = fallback (stem ++ "." ++ ending') key := by
  unfold fallback
  split
  · next hphp => rw [isFragment_ending (h.trans hphp) (h'.trans hphp)]
  · rfl

theorem classify_ending {changes : List Change} {stem ending ending' : String}
    (hdot : '.' ∉ ending.toList) (hcase : lowercase ending' = lowercase ending)
    (hmoves : ¬ Stays changes (stem ++ "." ++ ending))
    (hmoves' : ¬ Stays changes (stem ++ "." ++ ending')) :
    (after changes).classify (stem ++ "." ++ ending) =
      (after changes).classify (stem ++ "." ++ ending') := by
  have hdot' : '.' ∉ ending'.toList := by
    rw [← dot_mem_lowercase_iff, hcase, dot_mem_lowercase_iff]
    exact hdot
  rw [classify_of_moves hmoves (.dotted stem ending hdot rfl),
    classify_of_moves hmoves' (.dotted stem ending' hdot' rfl), hcase, fallback_ending rfl hcase]

/-- The category of every name after every history of changes is the one that the rules give. So
changes that do not map extensions with one key may change places, and names that have endings
of one lower-case form and may both move have the same category. -/
theorem classify_after (changes : List Change) (name : String) :
    (∀ category, (after changes).classify name = category ↔ Ruled changes name category) ∧
      (∀ earlier a b later, changes = earlier ++ a :: b :: later → a.Apart b →
        (after (earlier ++ b :: a :: later)).classify name = (after changes).classify name) ∧
      ∀ stem ending ending', name = stem ++ "." ++ ending → '.' ∉ ending.toList →
        lowercase ending' = lowercase ending → ¬ Stays changes name →
        ¬ Stays changes (stem ++ "." ++ ending') →
          (after changes).classify (stem ++ "." ++ ending') = (after changes).classify name := by
  refine ⟨fun category => classify_eq_iff, ?_, ?_⟩
  · rintro earlier a b later rfl hapart
    exact classify_swap hapart name
  · rintro stem ending ending' rfl hdot hcase hmoves hmoves'
    exact (classify_ending hdot hcase hmoves hmoves').symm

/-- Two mappings of one extension and a reserved name: a drawing is sorted by the later mapping, the
reservation may come before it, and the letter case of the ending makes no difference. -/
theorem classify_after_of_drawing :
    (after [.map ".PSD" (some .img), .map "psd" (some .data), .reserve "logo.psd"]).classify
        "draft.psd" = some .data ∧
      (after [.map ".PSD" (some .img), .reserve "logo.psd", .map "psd" (some .data)]).classify
        "draft.psd" = some .data ∧
      (after [.map ".PSD" (some .img), .map "psd" (some .data), .reserve "logo.psd"]).classify
        "draft.Psd" = some .data := by
  obtain ⟨hrules, hswap, hcase⟩ := classify_after
    [.map ".PSD" (some .img), .map "psd" (some .data), .reserve "logo.psd"] "draft.psd"
  have hmoves : ¬ Stays [.map ".PSD" (some .img), .map "psd" (some .data), .reserve "logo.psd"]
      "draft.psd" := by
    rw [← stays_after]
    decide
  have hmoves' : ¬ Stays [.map ".PSD" (some .img), .map "psd" (some .data), .reserve "logo.psd"]
      "draft.Psd" := by
    rw [← stays_after]
    decide
  have hending : FileName.EndsIn "draft.psd" "psd" := .dotted "draft" "psd" (by decide) (by decide)
  have hlast : LastMapped
      [.map ".PSD" (some .img), .map "psd" (some .data), .reserve "logo.psd"]
      (lowercase "psd") (some .data) := by
    refine ⟨[.map ".PSD" (some .img)], "psd", [.reserve "logo.psd"], rfl, by decide +kernel, ?_⟩
    intro extension category hmem
    simp at hmem
  -- the two other runs come down to this one by the laws of swapping and letter case
  have hdata := (hrules (some .data)).2 (.mapped hmoves hending hlast)
  refine ⟨hdata, ?_, ?_⟩
  · rw [← hdata]
    exact hswap [.map ".PSD" (some .img)] _ _ [] rfl trivial
  · rw [← hdata]
    exact hcase "draft" "psd" "Psd" (by decide) (by decide) (by decide +kernel) hmoves hmoves'

end SiteFolders.Classifier
