import SiteFolders.Proofs.Move.Plan
import SiteFolders.Proofs.Settings.Extensions
import SiteFolders.Run

/-!
# What settings keep at the root

Settings can add to what is kept in place: more reserved names and exclusion rules. The one thing
that they can take away is that pages stay, by mapping their extension to a folder. So a dot file, a
reserved name, an excluded file and a page with an extension that is not mapped are never planned
(`planFor?_of_keptAtRoot`).
-/

namespace SiteFolders

open SiteFolders.Text

theorem ofSettings_eq_ok {s : Settings} {o : RunSetup} (h : RunSetup.ofSettings s = .ok o) :
    s.classifier = .ok o.classifier ∧ s.exclusion.read = .ok o.exclusion ∧
      o.list = s.lister.list s.skippedDirs ∧ o.references = ⟨s.looseMentions, s.onFailure⟩ := by
  obtain ⟨classifier, hclassifier, h⟩ := bind_eq_ok_iff.1 h
  obtain ⟨exclusion, hexclusion, h⟩ := bind_eq_ok_iff.1 h
  obtain rfl := Except.ok.inj h
  exact ⟨hclassifier, hexclusion, rfl, rfl⟩

/-! ## Classifiers of settings -/

/-- The classifier of settings keeps the standard reserved names and those of the settings, and an
extension that the settings do not map has its standard entry. -/
theorem classifier_eq_ok {s : Settings} {c : Classifier} (h : s.classifier = .ok c) :
    (∀ n, n ∈ c.reserved ↔ n ∈ s.reserved ∨ n ∈ Classifier.standardReserved) ∧
      ∀ extension, (∀ x ∈ s.extensions, Classifier.extensionKey x.1 ≠ lowercase extension) →
        c.entry? extension = Classifier.standard.entry? extension := by
  obtain ⟨-, rfl⟩ := Settings.classifier_eq_ok_iff.1 h
  constructor
  · intro n
    rw [Classifier.after, Classifier.mem_reserved_foldl, Settings.mem_changes_reserve]
    rfl
  · intro extension hother
    refine Classifier.lookup_foldl_of_unmapped ?_ Classifier.standard
    intro key category hmem
    obtain ⟨folder, hentry, -⟩ := Settings.mem_changes_map.1 hmem
    exact hother (key, folder) hentry

/-! ## Files that stay -/

/-- True of the pages of a site: HTML pages, and PHP files that are no shared fragments. -/
def isPage (name : String) : Bool :=
  let extension := lowercase (FileName.suffix name)
  extension == "html" || extension == "htm" ||
    extension == "php" && !Classifier.isFragment name

/-- A file of this name is kept at a root by settings. -/
inductive KeptAtRoot (s : Settings) (root : Path) (n : String) : Prop
  | dotFile (h : n.toList.head? = some '.')
  | reserved (h : n ∈ s.reserved ∨ n ∈ Classifier.standardReserved)
  | excluded (x : Exclusion) (hread : s.exclusion.read = .ok x)
      (h : x.matchesFile (root.join n) = true)
  | page (h : isPage n = true) (hunmapped : ∀ x ∈ s.extensions,
      Classifier.extensionKey x.1 ≠ lowercase (FileName.suffix n))

theorem extension_of_isPage {n : String} (h : isPage n = true) :
    lowercase (FileName.suffix n) ∈ ["html", "htm", "php"] ∧
      (lowercase (FileName.suffix n) = "php" → Classifier.isFragment n = false) := by
  simp only [isPage, Bool.or_eq_true, Bool.and_eq_true, beq_iff_eq, Bool.not_eq_true'] at h
  rcases h with (hext | hext) | ⟨hext, hfragment⟩
  · simp [hext]
  · simp [hext]
  · simp [hext, hfragment]

/-- Pages stay if their extension has no entry. -/
theorem classify_of_isPage {c : Classifier} {n : String} (h : isPage n = true)
    (hentry : c.entry? (lowercase (FileName.suffix n)) = none) : c.classify n = none := by
  obtain ⟨hext, hfragment⟩ := extension_of_isPage h
  unfold Classifier.classify
  split
  · rfl
  · simp only [hentry, Option.getD_none]
    generalize lowercase (FileName.suffix n) = extension at hext hfragment
    simp only [List.mem_cons, List.not_mem_nil, or_false] at hext
    rcases hext with rfl | rfl | rfl
    · rfl
    · rfl
    · simp [Classifier.fallback, hfragment rfl]

/-- What settings keep at the root is not planned. -/
theorem planFor?_of_keptAtRoot {s : Settings} {o : RunSetup} (hs : RunSetup.ofSettings s = .ok o)
    {root : Path} {n : String} (h : KeptAtRoot s root n) (e : Entry) :
    Move.planFor? root o.classifier o.exclusion (n, e) = none := by
  obtain ⟨hclassifier, hexclusion, -, -⟩ := ofSettings_eq_ok hs
  obtain ⟨hreserved, hentries⟩ := classifier_eq_ok hclassifier
  by_contra hplanned
  obtain ⟨p, hp⟩ := Option.ne_none_iff_exists'.1 hplanned
  obtain ⟨-, hadmits, category, hclassify, -⟩ := Move.planFor?_eq_some_iff.1 hp
  have hstays : o.classifier.stays n = false := by
    by_contra hstays
    rw [Classifier.classify_of_stays (by simpa using hstays)] at hclassify
    simp at hclassify
  simp only [Classifier.stays, Bool.or_eq_false_iff, beq_eq_false_iff_ne] at hstays
  cases h with
  | dotFile hdot => exact hstays.1 hdot
  | reserved hmem => simp [hreserved, hmem] at hstays
  | excluded x hread hmatches =>
    rw [hexclusion, Except.ok.injEq] at hread
    simp [Exclusion.admits, hread, hmatches] at hadmits
  | page hpage hunmapped =>
    have hext := (extension_of_isPage hpage).1
    generalize hsuffix : lowercase (FileName.suffix n) = extension at hext hunmapped
    -- the extensions of pages are their own lower case, and the standard table has none of them
    have hstandard : ∀ extension ∈ ["html", "htm", "php"], lowercase extension = extension ∧
        Classifier.standard.entry? extension = none := by decide +kernel
    obtain ⟨hlower, hnone⟩ := hstandard extension hext
    rw [← hentries extension (by rwa [hlower]), ← hsuffix] at hnone
    rw [classify_of_isPage hpage hnone] at hclassify
    simp at hclassify

end SiteFolders
