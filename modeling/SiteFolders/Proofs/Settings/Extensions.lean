import SiteFolders.Proofs.Classifier.History
import SiteFolders.Proofs.Results
import SiteFolders.Settings.Basic

/-!
# Extensions in settings

Settings map extensions to folders and list extensions whose files stay. The extension of a file is
looked up in lower case, and it never has a dot: so an entry without an inner dot takes effect for
all files whose names end so in any letter case, and an entry with one for no file at all
(`extensions_take_effect`).
-/

namespace SiteFolders.Settings

open SiteFolders.Text Classifier

/-! ## What settings come to -/

/-- The changes that settings make to the standard classifier. -/
def changes (s : Settings) : List Change :=
  s.extensions.map (fun entry => .map entry.1 (Category.ofFolder? entry.2)) ++
    s.reserved.map .reserve

theorem mem_changes_map {s : Settings} {extension : String} {category : Option Category} :
    .map extension category ∈ s.changes ↔
      ∃ folder, (extension, folder) ∈ s.extensions ∧ Category.ofFolder? folder = category := by
  simp [changes]

theorem mem_changes_reserve {s : Settings} {name : String} :
    .reserve name ∈ s.changes ↔ name ∈ s.reserved := by
  simp [changes]

theorem stays_changes {s : Settings} {name : String} : Stays s.changes name ↔
    name.toList.head? = some '.' ∨ name ∈ s.reserved ∨ name ∈ standardReserved := by
  constructor
  · intro h
    cases h with
    | dotFile hdot => exact Or.inl hdot
    | standard hstandard => exact Or.inr (Or.inr hstandard)
    | reserved hreserve => exact Or.inr (Or.inl (mem_changes_reserve.1 hreserve))
  · rintro (hdot | hreserved | hstandard)
    · exact .dotFile hdot
    · exact .reserved (mem_changes_reserve.2 hreserved)
    · exact .standard hstandard

theorem addExtensions_eq_ok_iff {extensions : List (String × String)} {c c' : Classifier} :
    addExtensions c extensions = .ok c' ↔
      (∀ entry ∈ extensions, (Category.ofFolder? entry.2).isSome) ∧
        c' = (extensions.map fun entry => Change.map entry.1 (Category.ofFolder? entry.2)).foldl
          changed c := by
  induction extensions generalizing c with
  | nil =>
    constructor
    · intro h
      obtain rfl := Except.ok.inj h
      exact ⟨by simp, rfl⟩
    · rintro ⟨-, rfl⟩
      rfl
  | cons entry rest ih =>
    rcases entry with ⟨extension, folder⟩
    rw [addExtensions]
    cases hfolder : Category.ofFolder? folder with
    | none => simp [hfolder]
    | some category => simp [hfolder, ih, changed]

/-- Settings give a classifier if all their folders are known. -/
theorem classifier_eq_ok_iff {s : Settings} {c : Classifier} : s.classifier = .ok c ↔
    (∀ entry ∈ s.extensions, (Category.ofFolder? entry.2).isSome) ∧ c = after s.changes := by
  have hreserve : ∀ added : Classifier, s.reserved.foldl Classifier.reserve added =
      (s.reserved.map Change.reserve).foldl changed added := by
    intro added
    rw [List.foldl_map]
    rfl
  have hsplit : s.classifier = .ok c ↔ ∃ added, addExtensions standard s.extensions = .ok added ∧
      s.reserved.foldl Classifier.reserve added = c := by
    simp [classifier, bind_eq_ok_iff]
  rw [hsplit, after, changes, List.foldl_append]
  simp only [addExtensions_eq_ok_iff, hreserve]
  constructor
  · rintro ⟨added, ⟨hfolders, rfl⟩, rfl⟩
    exact ⟨hfolders, rfl⟩
  · rintro ⟨hfolders, rfl⟩
    exact ⟨_, ⟨hfolders, rfl⟩, rfl⟩

/-- The extensions that stay are kept in lower case, and no other rule depends on them. -/
theorem read_eq_ok {rules : ExclusionRules} {x : Exclusion} (h : rules.read = .ok x) :
    x.extensions = rules.extensions.map extensionKey ∧ ∀ extensions : List String,
      ({ rules with extensions := extensions } : ExclusionRules).read =
        .ok { x with extensions := extensions.map extensionKey } := by
  obtain ⟨wildcards, hwildcards, h⟩ := bind_eq_ok_iff.1 h
  obtain ⟨regexes, hregexes, h⟩ := bind_eq_ok_iff.1 h
  obtain rfl := Except.ok.inj h
  exact ⟨rfl, fun _ =>
    bind_eq_ok_iff.2 ⟨wildcards, hwildcards, bind_eq_ok_iff.2 ⟨regexes, hregexes, rfl⟩⟩⟩

/-! ## Names with an extension -/

/-- The name ends in a dot and the extension, in any letter case. -/
def Bears (name e : String) : Prop :=
  ∃ stem ending, name = stem ++ "." ++ ending ∧ lowercase ending = lowercase e

/-- What follows the last dot of a name that bears an extension without dots. -/
theorem Bears.exists_ending {name e : String} (h : Bears name e) (hdot : '.' ∉ e.toList) :
    ∃ stem ending, name = stem ++ "." ++ ending ∧ '.' ∉ ending.toList ∧
      lowercase ending = lowercase e := by
  obtain ⟨stem, ending, hname, hcase⟩ := h
  refine ⟨stem, ending, hname, ?_, hcase⟩
  rw [← dot_mem_lowercase_iff, hcase, dot_mem_lowercase_iff]
  exact hdot

theorem lowerExtension?_of_bears {p : Path} {name e : String} (hname : p.fileName? = some name)
    (h : Bears name e) (hdot : '.' ∉ e.toList) (hfirst : name.toList.head? ≠ some '.') :
    p.lowerExtension? = some (lowercase e) := by
  obtain ⟨stem, ending, rfl, hending, hcase⟩ := h.exists_ending hdot
  have hstem : stem ≠ "" := by
    rintro rfl
    simp at hfirst
  have hsplit := FileName.stemAndExtension_eq_some_iff.2 ⟨hstem, hending, rfl⟩
  rw [Path.lowerExtension?, Path.extension?, hname, Option.bind_some, hsplit, Option.map_some, hcase]

theorem dot_notMem_of_lowerExtension? {p : Path} {e : String} (h : p.lowerExtension? = some e) :
    '.' ∉ e.toList := by
  rw [Path.lowerExtension?, Option.map_eq_some_iff] at h
  obtain ⟨extension, hextension, rfl⟩ := h
  rw [Path.extension?, Option.bind_eq_some_iff] at hextension
  obtain ⟨name, -, hsplit⟩ := hextension
  have hdot := (FileName.stemAndExtension_eq_some_iff.1 (Prod.ext rfl hsplit)).2.1
  rw [dot_mem_lowercase_iff]
  exact hdot

/-! ## Entries without a dot -/

/-- An extension that one entry alone maps goes to the folder of that entry. -/
theorem classify_of_bears {s : Settings} {c : Classifier} (hc : s.classifier = .ok c)
    {e key folder : String} (hdot : '.' ∉ e.toList) (hentry : (key, folder) ∈ s.extensions)
    (hkey : extensionKey key = lowercase e)
    (honly : ∀ entry ∈ s.extensions, extensionKey entry.1 = lowercase e → entry = (key, folder))
    {name : String} (hname : Bears name e) (hmoves : ¬ Stays s.changes name) :
    c.classify name = Category.ofFolder? folder := by
  obtain ⟨stem, ending, hparts, hending, hcase⟩ := hname.exists_ending hdot
  have hmapped : LastMapped s.changes (lowercase ending) (Category.ofFolder? folder) := by
    rw [hcase]
    rcases unmapped_or_lastMapped s.changes (lowercase e) with hunmapped | ⟨category, hlast⟩
    · exact absurd hkey (hunmapped key _ (mem_changes_map.2 ⟨folder, hentry, rfl⟩))
    · obtain ⟨earlier, extension, later, hsplit, hextension, -⟩ := id hlast
      have hmem : Change.map extension category ∈ s.changes := by simp [hsplit]
      obtain ⟨folder', hentry', rfl⟩ := mem_changes_map.1 hmem
      obtain ⟨-, rfl⟩ := Prod.mk.inj (honly _ hentry' hextension)
      exact hlast
  rw [(classifier_eq_ok_iff.1 hc).2]
  exact classify_of_ruled (.mapped hmoves (.dotted stem ending hending hparts) hmapped)

theorem admits_of_bears {s : Settings} {x : Exclusion} (hx : s.exclusion.read = .ok x)
    {e key : String} (hdot : '.' ∉ e.toList) (hentry : key ∈ s.exclusion.extensions)
    (hkey : extensionKey key = lowercase e) {p : Path} {name : String}
    (hfile : p.fileName? = some name) (hname : Bears name e)
    (hfirst : name.toList.head? ≠ some '.') : x.admits p = false := by
  have hmem : lowercase e ∈ x.extensions := by
    rw [(read_eq_ok hx).1, ← hkey]
    exact List.mem_map_of_mem hentry
  have hextension := lowerExtension?_of_bears hfile hname hdot hfirst
  simp [Exclusion.admits, Exclusion.matchesFile, hextension, hmem]

/-! ## Entries with a dot -/

/-- The settings without the entries whose keys have a dot. -/
def withoutDotted (s : Settings) : Settings :=
  { s with
    extensions := s.extensions.filter fun entry => dotless entry.1
    exclusion := { s.exclusion with extensions := s.exclusion.extensions.filter dotless } }

theorem changes_withoutDotted (s : Settings) :
    s.withoutDotted.changes = s.changes.filter Change.dotless := by
  have hreserve : ∀ change ∈ s.reserved.map Change.reserve, change.dotless = true := by
    intro change hchange
    obtain ⟨name, -, rfl⟩ := List.mem_map.1 hchange
    rfl
  have hkept : (fun entry : String × String => dotless entry.1) =
      Change.dotless ∘ fun entry => .map entry.1 (Category.ofFolder? entry.2) := by
    funext entry
    simp only [Function.comp_apply, Change.dotless]
  rw [changes, changes, List.filter_append, List.filter_map, List.filter_eq_self.2 hreserve, ← hkept]
  simp only [withoutDotted]

theorem classifier_withoutDotted {s : Settings} {c : Classifier} (hc : s.classifier = .ok c) :
    ∃ c', s.withoutDotted.classifier = .ok c' ∧ ∀ name, c'.classify name = c.classify name := by
  obtain ⟨hfolders, rfl⟩ := classifier_eq_ok_iff.1 hc
  refine ⟨after s.withoutDotted.changes, classifier_eq_ok_iff.2 ⟨fun entry hentry => ?_, rfl⟩, ?_⟩
  · exact hfolders entry (List.mem_of_mem_filter hentry)
  · intro name
    rw [changes_withoutDotted, classify_dotless]

theorem read_withoutDotted {s : Settings} {x : Exclusion} (hx : s.exclusion.read = .ok x) :
    ∃ x', s.withoutDotted.exclusion.read = .ok x' ∧ ∀ p, x'.admits p = x.admits p := by
  obtain ⟨hextensions, hread⟩ := read_eq_ok hx
  refine ⟨_, hread (s.exclusion.extensions.filter dotless), fun p => ?_⟩
  have hmem : ∀ e, p.lowerExtension? = some e →
      (e ∈ (s.exclusion.extensions.filter dotless).map extensionKey ↔ e ∈ x.extensions) := by
    intro e he
    have hdot := dot_notMem_of_lowerExtension? he
    rw [hextensions, List.mem_map, List.mem_map]
    constructor
    · rintro ⟨key, hkey, rfl⟩
      exact ⟨key, List.mem_of_mem_filter hkey, rfl⟩
    · rintro ⟨key, hkey, rfl⟩
      exact ⟨key, List.mem_filter.2 ⟨hkey, by simpa [dotless] using hdot⟩, rfl⟩
  unfold Exclusion.admits Exclusion.matchesFile
  cases hextension : p.lowerExtension? with
  | none => rfl
  | some e =>
    simp only [Option.any_some, List.contains_eq_mem, hmem e hextension]

/-- Settings that can be used act on the files whose names end in a dot and an extension without
dots, in any letter case. If one entry alone maps the extension, these files go to its folder, but
for dot files and reserved names; if the extension is listed to stay, they are not admitted. Entries
whose keys have a dot do nothing. -/
theorem extensions_take_effect {s : Settings} {c : Classifier} {x : Exclusion}
    (hc : s.classifier = .ok c) (hx : s.exclusion.read = .ok x) :
    (∀ e key folder, '.' ∉ e.toList → (key, folder) ∈ s.extensions →
      extensionKey key = lowercase e →
      (∀ entry ∈ s.extensions, extensionKey entry.1 = lowercase e → entry = (key, folder)) →
        ∃ category, Category.ofFolder? folder = some category ∧
          ∀ name, Bears name e → name.toList.head? ≠ some '.' → name ∉ s.reserved →
            name ∉ standardReserved → c.classify name = some category) ∧
    (∀ e key, '.' ∉ e.toList → key ∈ s.exclusion.extensions → extensionKey key = lowercase e →
      ∀ p name, p.fileName? = some name → Bears name e → name.toList.head? ≠ some '.' →
        x.admits p = false) ∧
    ∃ c' x', s.withoutDotted.classifier = .ok c' ∧ s.withoutDotted.exclusion.read = .ok x' ∧
      (∀ name, c'.classify name = c.classify name) ∧ ∀ p, x'.admits p = x.admits p := by
  refine ⟨?_, ?_, ?_⟩
  · intro e key folder hdot hentry hkey honly
    have hfolder := (classifier_eq_ok_iff.1 hc).1 _ hentry
    obtain ⟨category, hcategory⟩ := Option.isSome_iff_exists.1 hfolder
    refine ⟨category, hcategory, fun name hname hfirst hreserved hstandard => ?_⟩
    have hmoves : ¬ Stays s.changes name := by
      rw [stays_changes]
      tauto
    rw [← hcategory]
    exact classify_of_bears hc hdot hentry hkey honly hname hmoves
  · intro e key hdot hentry hkey p name hfile hname hfirst
    exact admits_of_bears hx hdot hentry hkey hfile hname hfirst
  · obtain ⟨c', hc', hclassify⟩ := classifier_withoutDotted hc
    obtain ⟨x', hx', hadmits⟩ := read_withoutDotted hx
    exact ⟨c', x', hc', hx', hclassify, hadmits⟩

/-- Drawings are sorted and old copies stay, whatever the letter case of key and name. -/
theorem extensions_take_effect_of_psd :
    ∃ c x, Settings.classifier { extensions := [(".PSD", "img")] } = .ok c ∧
      ExclusionRules.read { extensions := ["Bak"] } = .ok x ∧
      c.classify "draft.Psd" = some .img ∧ x.admits ⟨"site/page.BAK"⟩ = false := by
  have heffect := @extensions_take_effect
    { extensions := [(".PSD", "img")], exclusion := { extensions := ["Bak"] } } _ _ rfl rfl
  obtain ⟨hmapped, hlisted, -⟩ := heffect
  refine ⟨_, _, rfl, rfl, ?_, ?_⟩
  · obtain ⟨category, hcategory, hclassify⟩ := hmapped "psd" ".PSD" "img" (by decide) (by decide)
      (by decide +kernel) fun entry hentry _ => List.mem_singleton.1 hentry
    obtain rfl : category = .img := by
      have himg : Category.ofFolder? "img" = some .img := by decide +kernel
      rw [hcategory] at himg
      exact Option.some.inj himg
    exact hclassify "draft.Psd" ⟨"draft", "Psd", by decide, by decide +kernel⟩ (by decide)
      (by simp) (by decide)
  · exact hlisted "bak" "Bak" (by decide) (by decide) (by decide +kernel) ⟨"site/page.BAK"⟩
      "page.BAK" (by decide +kernel) ⟨"page", "BAK", by decide, by decide +kernel⟩ (by decide)

/-- An extension with an inner dot, mapped and listed: the file whose name ends so is sorted as if
it were not mapped, and it does not stay. -/
theorem tarball_not_in_effect :
    ∃ c x, Settings.classifier { extensions := [("tar.gz", "data")] } = .ok c ∧
      ExclusionRules.read { extensions := ["tar.gz"] } = .ok x ∧
      Bears "a.tar.gz" "tar.gz" ∧ c.stays "a.tar.gz" = false ∧
      Category.ofFolder? "data" = some .data ∧ c.classify "a.tar.gz" = some .files ∧
      x.admits ⟨"a.tar.gz"⟩ = true := by
  refine ⟨_, _, rfl, rfl, ⟨"a", "tar.gz", by decide, rfl⟩, by decide, ?_, ?_, ?_⟩
  · decide +kernel
  · decide +kernel
  · decide +kernel

end SiteFolders.Settings
