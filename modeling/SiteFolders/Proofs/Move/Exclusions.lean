import SiteFolders.Proofs.Move.Plan
import SiteFolders.Proofs.Settings.Extensions

/-!
# Plans under more rules

A plan is settled by what the directory holds: the order in which its entries are listed makes no
difference (`planEntries_perm`). Exclusion rules look at names alone (`matchesFile_iff`), and so
do reserved names. So more rules and more reserved names, wherever they are added, take the files that
they match out of the plan and change nothing else (`plan_extended`).
-/

namespace SiteFolders

open SiteFolders.Text

/-! ## What rules match -/

/-- Some rule matches files of this name. -/
inductive ExclusionRules.Match (rules : ExclusionRules) (name : String) : Prop
  | filename (h : name ∈ rules.filenames)
  | extension {stem ending written : String} (hwritten : written ∈ rules.extensions)
      (hstem : stem ≠ "") (hending : '.' ∉ ending.toList) (hname : name = stem ++ "." ++ ending)
      (h : Classifier.extensionKey written = lowercase ending)
  | wildcard {pattern : String} {w : Wildcard} (hpattern : pattern ∈ rules.patterns)
      (hw : Wildcard.parse? pattern = some w) (h : w.accepts false name.toList = true)
  | regex {pattern : String} {r : Regex} (hpattern : pattern ∈ rules.regex)
      (hr : Regex.parse pattern = .ok r) (h : r.occurs none name.toList = true)

/-- A list is read if all its items are. -/
theorem mapM_eq_ok_iff {α β ε : Type} {f : α → Except ε β} {xs : List α} {ys : List β} :
    xs.mapM f = .ok ys ↔ List.Forall₂ (fun x y => f x = .ok y) xs ys := by
  induction xs generalizing ys with
  | nil =>
    rw [List.forall₂_nil_left_iff]
    constructor
    · intro h
      exact (Except.ok.inj h).symm
    · rintro rfl
      rfl
  | cons x xs ih =>
    simp only [List.mapM_cons, List.forall₂_cons_left_iff, bind_eq_ok_iff, ih, pure_eq_ok,
      Except.ok.injEq]
    constructor
    · rintro ⟨y, hy, rest, hrest, rfl⟩
      exact ⟨y, rest, hy, hrest, rfl⟩
    · rintro ⟨y, rest, hy, hrest, rfl⟩
      exact ⟨y, hy, rest, hrest, rfl⟩

/-- One wildcard of the rules. -/
def readWildcard (pattern : String) : Except SettingsError Wildcard :=
  match Wildcard.parse? pattern with
  | some w => pure w
  | none => throw (.invalidWildcard pattern)

/-- One expression of the rules. -/
def readRegex (pattern : String) : Except SettingsError Regex :=
  match Regex.parse pattern with
  | .ok r => pure r
  | .error fault => throw (.invalidRegex pattern fault)

theorem readWildcard_eq_ok_iff {pattern : String} {w : Wildcard} :
    readWildcard pattern = .ok w ↔ Wildcard.parse? pattern = some w := by
  unfold readWildcard
  cases Wildcard.parse? pattern <;> simp

theorem readRegex_eq_ok_iff {pattern : String} {r : Regex} :
    readRegex pattern = .ok r ↔ Regex.parse pattern = .ok r := by
  unfold readRegex
  cases Regex.parse pattern <;> simp

theorem read_eq (rules : ExclusionRules) : rules.read = do
    let wildcards ← rules.patterns.mapM readWildcard
    let regexes ← rules.regex.mapM readRegex
    return ⟨rules.filenames, rules.extensions.map Classifier.extensionKey, wildcards, regexes⟩ :=
  rfl

/-- Rules can be used if all wildcards and expressions can be read. -/
theorem read_eq_ok_iff {rules : ExclusionRules} {x : Exclusion} : rules.read = .ok x ↔
    List.Forall₂ (fun pattern w => Wildcard.parse? pattern = some w) rules.patterns x.wildcards ∧
      List.Forall₂ (fun pattern r => Regex.parse pattern = .ok r) rules.regex x.regexes ∧
        x.names = rules.filenames ∧ x.extensions = rules.extensions.map Classifier.extensionKey := by
  simp only [← readWildcard_eq_ok_iff, ← readRegex_eq_ok_iff, ← mapM_eq_ok_iff]
  rcases x with ⟨names, extensions, wildcards, regexes⟩
  simp only [read_eq, bind_eq_ok_iff, pure_eq_ok, Except.ok.injEq, Exclusion.mk.injEq]
  constructor
  · rintro ⟨ws, hws, rs, hrs, rfl, rfl, rfl, rfl⟩
    exact ⟨hws, hrs, rfl, rfl⟩
  · rintro ⟨hws, hrs, rfl, rfl⟩
    exact ⟨_, hws, _, hrs, rfl, rfl, rfl, rfl⟩

theorem exists_of_forall₂ {α β : Type} {R : α → β → Prop} {xs : List α} {ys : List β}
    (h : List.Forall₂ R xs ys) : (∀ x ∈ xs, ∃ y ∈ ys, R x y) ∧ ∀ y ∈ ys, ∃ x ∈ xs, R x y := by
  induction h with
  | nil => simp
  | cons hab _ ih => grind

/-- Rules ready to be asked match the files that the written rules match, by their names alone. -/
theorem matchesFile_iff {rules : ExclusionRules} {x : Exclusion} (hx : rules.read = .ok x)
    {p : Path} {name : String} (hname : p.fileName? = some name) :
    x.matchesFile p = true ↔ rules.Match name := by
  obtain ⟨hwildcards, hregexes, hnames, hextensions⟩ := read_eq_ok_iff.1 hx
  -- extensions are the rule that is not compared as it is written: both sides are keys
  have hextension : p.lowerExtension?.any x.extensions.contains = true ↔
      ∃ stem ending written, written ∈ rules.extensions ∧ stem ≠ "" ∧ '.' ∉ ending.toList ∧
        name = stem ++ "." ++ ending ∧ Classifier.extensionKey written = lowercase ending := by
    rw [Path.lowerExtension?, Path.extension?, hname, Option.bind_some, Option.any_map,
      Option.any_eq_true, hextensions]
    simp only [List.contains_iff_mem, List.mem_map]
    constructor
    · rintro ⟨ending, hsplit, written, hwritten, hkey⟩
      obtain ⟨hstem, hending, hparts⟩ :=
        FileName.stemAndExtension_eq_some_iff.1 (Prod.ext rfl hsplit)
      exact ⟨_, ending, written, hwritten, hstem, hending, hparts, hkey⟩
    · rintro ⟨stem, ending, written, hwritten, hstem, hending, hparts, hkey⟩
      refine ⟨ending, ?_, written, hwritten, hkey⟩
      rw [FileName.stemAndExtension_eq_some_iff.2 ⟨hstem, hending, hparts⟩]
  simp only [Exclusion.matchesFile, hname, Option.getD_some, Bool.or_eq_true, hextension,
    List.contains_iff_mem, List.any_eq_true, hnames]
  constructor
  · rintro (((hfile | ⟨stem, ending, written, hwritten, hstem, hending, hparts, hkey⟩) |
      ⟨w, hw, haccepts⟩) | ⟨r, hr, hoccurs⟩)
    · exact .filename hfile
    · exact .extension hwritten hstem hending hparts hkey
    · obtain ⟨pattern, hpattern, hread⟩ := (exists_of_forall₂ hwildcards).2 w hw
      exact .wildcard hpattern hread haccepts
    · obtain ⟨pattern, hpattern, hread⟩ := (exists_of_forall₂ hregexes).2 r hr
      exact .regex hpattern hread hoccurs
  · intro hmatch
    cases hmatch with
    | filename hfile => exact Or.inl (Or.inl (Or.inl hfile))
    | extension hwritten hstem hending hparts hkey =>
      exact Or.inl (Or.inl (Or.inr ⟨_, _, _, hwritten, hstem, hending, hparts, hkey⟩))
    | wildcard hpattern hw haccepts =>
      obtain ⟨w, hmem, hread⟩ := (exists_of_forall₂ hwildcards).1 _ hpattern
      obtain rfl := Option.some.inj (hw.symm.trans hread)
      exact Or.inl (Or.inr ⟨_, hmem, haccepts⟩)
    | regex hpattern hr hoccurs =>
      obtain ⟨r, hmem, hread⟩ := (exists_of_forall₂ hregexes).1 _ hpattern
      obtain rfl := Except.ok.inj (hr.symm.trans hread)
      exact Or.inr ⟨_, hmem, hoccurs⟩

/-! ## Additions -/

/-- Settings with further rules and reserved names, wherever they stand among the others. -/
structure Settings.Extended (s s' : Settings) (rules : ExclusionRules) (names : List String) :
    Prop where
  filenames : s'.exclusion.filenames.Perm (s.exclusion.filenames ++ rules.filenames)
  patterns : s'.exclusion.patterns.Perm (s.exclusion.patterns ++ rules.patterns)
  extensions : s'.exclusion.extensions.Perm (s.exclusion.extensions ++ rules.extensions)
  regex : s'.exclusion.regex.Perm (s.exclusion.regex ++ rules.regex)
  reserved : s'.reserved.Perm (s.reserved ++ names)
  mapped : s'.extensions = s.extensions

/-- The entries of settings alone decide the table of extensions. -/
theorem extensions_after_changes (s : Settings) : (Classifier.after s.changes).extensions =
    ((s.extensions.map fun entry => Classifier.Change.map entry.1 (Category.ofFolder? entry.2)).foldl
      Classifier.changed .standard).extensions := by
  have hreserve : ∀ (names : List String) (c : Classifier),
      ((names.map Classifier.Change.reserve).foldl Classifier.changed c).extensions =
        c.extensions := by
    intro names
    induction names with
    | nil => intro c; rfl
    | cons name names ih => intro c; exact ih (c.reserve name)
  rw [Classifier.after, Settings.changes, List.foldl_append, hreserve]

theorem exists_forall₂ {α β : Type} {R : α → β → Prop} {xs : List α} (h : ∀ x ∈ xs, ∃ y, R x y) :
    ∃ ys, List.Forall₂ R xs ys := by
  induction xs with
  | nil => exact ⟨[], .nil⟩
  | cons x xs ih =>
    obtain ⟨y, hy⟩ := h x (by simp)
    obtain ⟨ys, hys⟩ := ih fun x hx => h x (List.mem_cons_of_mem _ hx)
    exact ⟨y :: ys, .cons hy hys⟩

namespace Settings.Extended

variable {s s' : Settings} {rules : ExclusionRules} {names : List String}
  (h : s.Extended s' rules names)
include h

/-- The rules together match what the old ones or the further ones match. -/
theorem match_iff {name : String} :
    s'.exclusion.Match name ↔ s.exclusion.Match name ∨ rules.Match name := by
  constructor
  · intro hmatch
    cases hmatch with
    | filename hfile =>
      exact (List.mem_append.1 (h.filenames.mem_iff.1 hfile)).imp .filename .filename
    | extension hwritten hstem hending hname hkey =>
      exact (List.mem_append.1 (h.extensions.mem_iff.1 hwritten)).imp
        (.extension · hstem hending hname hkey) (.extension · hstem hending hname hkey)
    | wildcard hpattern hw haccepts =>
      exact (List.mem_append.1 (h.patterns.mem_iff.1 hpattern)).imp
        (.wildcard · hw haccepts) (.wildcard · hw haccepts)
    | regex hpattern hr hoccurs =>
      exact (List.mem_append.1 (h.regex.mem_iff.1 hpattern)).imp
        (.regex · hr hoccurs) (.regex · hr hoccurs)
  · rintro (hmatch | hmatch)
    all_goals cases hmatch with
      | filename hfile => exact .filename (h.filenames.mem_iff.2 (by simp [hfile]))
      | extension hwritten hstem hending hname hkey =>
        exact .extension (h.extensions.mem_iff.2 (by simp [hwritten])) hstem hending hname hkey
      | wildcard hpattern hw haccepts =>
        exact .wildcard (h.patterns.mem_iff.2 (by simp [hpattern])) hw haccepts
      | regex hpattern hr hoccurs =>
        exact .regex (h.regex.mem_iff.2 (by simp [hpattern])) hr hoccurs

/-- Rules that can be used can be used together. -/
theorem exists_read {x y : Exclusion} (hx : s.exclusion.read = .ok x) (hy : rules.read = .ok y) :
    ∃ x', s'.exclusion.read = .ok x' := by
  obtain ⟨hxw, hxr, -, -⟩ := read_eq_ok_iff.1 hx
  obtain ⟨hyw, hyr, -, -⟩ := read_eq_ok_iff.1 hy
  have hpatterns : ∀ pattern ∈ s'.exclusion.patterns,
      ∃ w, Wildcard.parse? pattern = some w := by
    intro pattern hpattern
    rcases List.mem_append.1 (h.patterns.mem_iff.1 hpattern) with hold | hnew
    · obtain ⟨w, -, hw⟩ := (exists_of_forall₂ hxw).1 pattern hold
      exact ⟨w, hw⟩
    · obtain ⟨w, -, hw⟩ := (exists_of_forall₂ hyw).1 pattern hnew
      exact ⟨w, hw⟩
  have hregex : ∀ pattern ∈ s'.exclusion.regex, ∃ r, Regex.parse pattern = .ok r := by
    intro pattern hpattern
    rcases List.mem_append.1 (h.regex.mem_iff.1 hpattern) with hold | hnew
    · obtain ⟨r, -, hr⟩ := (exists_of_forall₂ hxr).1 pattern hold
      exact ⟨r, hr⟩
    · obtain ⟨r, -, hr⟩ := (exists_of_forall₂ hyr).1 pattern hnew
      exact ⟨r, hr⟩
  obtain ⟨ws, hws⟩ := exists_forall₂ hpatterns
  obtain ⟨rs, hrs⟩ := exists_forall₂ hregex
  exact ⟨⟨_, _, ws, rs⟩, read_eq_ok_iff.2 ⟨hws, hrs, rfl, rfl⟩⟩

/-- Further reserved names stay, and all others are classified as before. -/
theorem exists_classifier {c : Classifier} (hc : s.classifier = .ok c) :
    ∃ c', s'.classifier = .ok c' ∧
      ∀ name, c'.classify name = if name ∈ names then none else c.classify name := by
  obtain ⟨hfolders, rfl⟩ := classifier_eq_ok_iff.1 hc
  refine ⟨_, classifier_eq_ok_iff.2 ⟨h.mapped ▸ hfolders, rfl⟩, fun name => ?_⟩
  have htable : (Classifier.after s'.changes).extensions = (Classifier.after s.changes).extensions := by
    rw [extensions_after_changes, extensions_after_changes, h.mapped]
  have hstays : (Classifier.after s'.changes).stays name = true ↔
      (Classifier.after s.changes).stays name = true ∨ name ∈ names := by
    rw [Classifier.stays_after, Classifier.stays_after, stays_changes, stays_changes,
      h.reserved.mem_iff, List.mem_append]
    tauto
  unfold Classifier.classify Classifier.entry?
  rw [htable]
  by_cases hname : name ∈ names
  · simp [hstays.2 (Or.inr hname), hname]
  · simp only [hstays, hname, or_false, if_false]

end Settings.Extended

/-! ## Plans -/

namespace Move

section

variable {root : Path} {classifier : Classifier} {exclusion : Exclusion}
  {entries : List (String × Entry)} (hnames : entries.Pairwise fun a b => a.1 ≠ b.1)
include hnames

theorem pairwise_fileName_ne :
    (entries.filterMap (planFor? root classifier exclusion)).Pairwise
      fun p q => p.fileName ≠ q.fileName := by
  refine List.pairwise_filterMap.2 (hnames.imp fun hne p hp q hq => ?_)
  rwa [← fileName_of_planFor? hp, ← fileName_of_planFor? hq] at hne

/-- The names in a plan rise. -/
theorem pairwise_planEntries : (planEntries root classifier exclusion entries).Pairwise
    fun p q => p.fileName < q.fileName := by
  have hsorted : (planEntries root classifier exclusion entries).Pairwise
      fun p q => p.fileName ≤ q.fileName := by
    refine (List.pairwise_mergeSort (fun a b c hab hbc => ?_) (fun a b => ?_) _).imp
      fun h => by simpa using h
    · simp only [decide_eq_true_eq] at hab hbc ⊢
      exact String.le_trans hab hbc
    · simpa using String.le_total a.fileName b.fileName
  have hdistinct : (planEntries root classifier exclusion entries).Pairwise
      fun p q => p.fileName ≠ q.fileName :=
    ((List.mergeSort_perm _ _).pairwise_iff fun h => h.symm).2 (pairwise_fileName_ne hnames)
  refine hsorted.imp₂ (fun p q hle hne => ?_) hdistinct
  by_contra hlt
  exact hne (String.le_antisymm hle (String.not_lt.1 hlt))

end

/-- Two lists of plans with rising names that hold the same plans are one. -/
theorem eq_of_rising {plans plans' : List Planned} (hperm : plans.Perm plans')
    (h : plans.Pairwise fun p q => p.fileName < q.fileName)
    (h' : plans'.Pairwise fun p q => p.fileName < q.fileName) : plans = plans' :=
  hperm.eq_of_pairwise
    (fun _ _ _ _ hpq hqp => absurd (String.lt_trans hpq hqp) (String.lt_irrefl _)) h h'

/-- The order in which entries are listed makes no difference to a plan. -/
theorem planEntries_perm {root : Path} {classifier : Classifier} {exclusion : Exclusion}
    {entries listed : List (String × Entry)} (hnames : listed.Pairwise fun a b => a.1 ≠ b.1)
    (h : entries.Perm listed) :
    planEntries root classifier exclusion entries = planEntries root classifier exclusion listed := by
  have hnames' : entries.Pairwise fun a b => a.1 ≠ b.1 := (h.pairwise_iff fun h => h.symm).2 hnames
  refine eq_of_rising ?_ (pairwise_planEntries hnames') (pairwise_planEntries hnames)
  exact (List.mergeSort_perm _ _).trans ((h.filterMap _).trans (List.mergeSort_perm _ _).symm)

/-- Where the plans for single entries are filtered, the plan for all of them is. -/
theorem planEntries_filter {root : Path} {classifier classifier' : Classifier}
    {exclusion exclusion' : Exclusion} {entries : List (String × Entry)}
    (hnames : entries.Pairwise fun a b => a.1 ≠ b.1) {keep : Planned → Bool}
    (h : ∀ entry ∈ entries, planFor? root classifier' exclusion' entry =
      (planFor? root classifier exclusion entry).filter keep) :
    planEntries root classifier' exclusion' entries =
      (planEntries root classifier exclusion entries).filter keep := by
  refine eq_of_rising ?_ (pairwise_planEntries hnames) ((pairwise_planEntries hnames).filter _)
  refine (List.mergeSort_perm _ _).trans ?_
  rw [List.filterMap_congr h, ← List.filter_filterMap]
  exact (List.mergeSort_perm _ _).symm.filter _

/-- A file is planned with further rules and reserved names if it was planned without them and they
do not match it. -/
theorem planFor?_extended {s s' : Settings} {rules : ExclusionRules} {names : List String}
    (h : s.Extended s' rules names) {c c' : Classifier} {x x' : Exclusion}
    (hx : s.exclusion.read = .ok x) (hx' : s'.exclusion.read = .ok x')
    (hclassify : ∀ name, c'.classify name = if name ∈ names then none else c.classify name)
    {root : Path} {entry : String × Entry} (hentry : IsName entry.1) {keep : Planned → Bool}
    (hkeep : ∀ p, keep p = true ↔ ¬ (rules.Match p.fileName ∨ p.fileName ∈ names)) :
    planFor? root c' x' entry = (planFor? root c x entry).filter keep := by
  have hfile := Path.fileName?_join hentry root
  have hadmits : x'.admits (root.join entry.1) = true ↔
      x.admits (root.join entry.1) = true ∧ ¬ rules.Match entry.1 := by
    simp only [Exclusion.admits, Bool.not_eq_true', ← Bool.not_eq_true, matchesFile_iff hx hfile,
      matchesFile_iff hx' hfile, h.match_iff, not_or]
  ext p
  rw [Option.filter_eq_some_iff, planFor?_eq_some_iff, planFor?_eq_some_iff, hadmits, hkeep,
    hclassify, not_or]
  constructor
  · rintro ⟨hisFile, ⟨hold, hnew⟩, category, hcategory, rfl⟩
    split at hcategory
    · simp at hcategory
    · next hname => exact ⟨⟨hisFile, hold, category, hcategory, rfl⟩, hnew, hname⟩
  · rintro ⟨⟨hisFile, hold, category, hcategory, rfl⟩, hnew, hname⟩
    exact ⟨hisFile, ⟨hold, hnew⟩, category, by rw [if_neg hname, hcategory], rfl⟩

/-- The plan for a directory that can be listed is the same in whatever order its entries are listed.
It holds, in rising order of their names, the regular files of the directory that no rule matches and
that have a category. With further rules and reserved names, wherever they are added, the files that
these match are missing from it, and nothing else changes. -/
theorem plan_extended {d : Disk} (hd : d.IsTree) {root : Path} {listed : List (String × Entry)}
    (hread : d.readDir root = .ok listed) {s : Settings} {c : Classifier} {x : Exclusion}
    (hc : s.classifier = .ok c) (hx : s.exclusion.read = .ok x) :
    ∃ plans, plan d root c x = .ok plans ∧
      (∀ entries, entries.Perm listed → planEntries root c x entries = plans) ∧
      (plans.Pairwise fun p q => p.fileName < q.fileName) ∧
      (∃ home mode, d.locate true root = .ok (home, .dir mode) ∧ ∀ p, p ∈ plans ↔
        p.source = root.join p.fileName ∧
          (∃ mode bytes, d.get? (p.fileName :: home) = some (.file mode bytes)) ∧
          ¬ s.exclusion.Match p.fileName ∧ c.classify p.fileName = some p.category) ∧
      ∀ s' rules names y, s.Extended s' rules names → rules.read = .ok y →
        ∃ c' x' keep, s'.classifier = .ok c' ∧ s'.exclusion.read = .ok x' ∧
          (∀ p, keep p = true ↔ ¬ (rules.Match p.fileName ∨ p.fileName ∈ names)) ∧
          plan d root c' x' = .ok (plans.filter keep) := by
  obtain ⟨home, mode, hlocate, -, hlisted⟩ := Disk.readDir_eq_ok_iff.1 hread
  have hnames : listed.Pairwise fun a b => a.1 ≠ b.1 := hlisted ▸ pairwise_children hd home
  have hisName : ∀ entry ∈ listed, IsName entry.1 := by
    intro entry hentry
    rw [hlisted] at hentry
    exact hd.isName_of_get? (hd.get?_of_mem (mem_children.1 hentry))
  have hplan : plan d root c x = .ok (planEntries root c x listed) := by simp [plan, hread]
  refine ⟨planEntries root c x listed, hplan, fun entries => planEntries_perm hnames,
    pairwise_planEntries hnames, ⟨home, mode, hlocate, fun p => ?_⟩, ?_⟩
  · rw [mem_plan_iff hd hlocate hplan]
    constructor
    · rintro ⟨name, entry, hget, hp⟩
      obtain ⟨hfile, hadmits, category, hcategory, rfl⟩ := planFor?_eq_some_iff.1 hp
      refine ⟨rfl, ?_, ?_, hcategory⟩
      · cases entry with
        | file mode bytes => exact ⟨mode, bytes, hget⟩
        | dir => simp [Entry.isFile] at hfile
        | link => simp [Entry.isFile] at hfile
      · rw [← matchesFile_iff hx (Path.fileName?_join (hd.isName_of_get? hget) root)]
        simpa [Exclusion.admits] using hadmits
    · rintro ⟨hsource, ⟨mode, bytes, hget⟩, hmatch, hcategory⟩
      refine ⟨p.fileName, _, hget, planFor?_eq_some_iff.2 ⟨rfl, ?_, p.category, hcategory, ?_⟩⟩
      · rw [← matchesFile_iff hx (Path.fileName?_join (hd.isName_of_get? hget) root)] at hmatch
        simpa [Exclusion.admits] using hmatch
      · rw [← hsource]
  · intro s' rules names y hextended hy
    obtain ⟨c', hc', hclassify⟩ := hextended.exists_classifier hc
    obtain ⟨x', hx'⟩ := hextended.exists_read hx hy
    -- `Match` is a relation, so what is kept is filtered classically
    classical
    let keep : Planned → Bool := fun p =>
      decide (¬ (rules.Match p.fileName ∨ p.fileName ∈ names))
    have hkeep : ∀ p, keep p = true ↔ ¬ (rules.Match p.fileName ∨ p.fileName ∈ names) :=
      fun p => decide_eq_true_iff
    refine ⟨c', x', keep, hc', hx', hkeep, ?_⟩
    have hfilter : planEntries root c' x' listed = (planEntries root c x listed).filter keep :=
      planEntries_filter hnames fun entry hentry =>
        planFor?_extended hextended hx hx' hclassify (hisName entry hentry) hkeep
    simp [plan, hread, hfilter]

/-- A disk with two stylesheets and a text. -/
def sheetsDisk : Disk where
  entries := [(["site"], .dir 0o755), (["a.css", "site"], .file 0o644 "body".toUTF8),
    (["b.css", "site"], .file 0o644 "p".toUTF8), (["robots.txt", "site"], .file 0o644 "x".toUTF8)]

/-- The plans for the disk without any rules. -/
def sheetPlans : List Planned :=
  [⟨⟨"/site/a.css"⟩, "a.css", .css⟩, ⟨⟨"/site/b.css"⟩, "b.css", .css⟩,
    ⟨⟨"/site/robots.txt"⟩, "robots.txt", .files⟩]

/-- Rules that keep one of the stylesheets in place. -/
def sheetRules : ExclusionRules where
  patterns := ["b.*"]

theorem plan_extended_of_sheetsDisk : sheetsDisk.IsTree ∧
    (∃ listed, sheetsDisk.readDir ⟨"/site"⟩ = .ok listed) ∧
    ({} : Settings).classifier = .ok .standard ∧ ({} : Settings).exclusion.read = .ok {} ∧
    plan sheetsDisk ⟨"/site"⟩ .standard {} = .ok sheetPlans ∧
    ({} : Settings).Extended { exclusion := sheetRules, reserved := ["robots.txt"] } sheetRules
      ["robots.txt"] ∧
    ∃ c' x', ({ exclusion := sheetRules, reserved := ["robots.txt"] } : Settings).classifier = .ok c' ∧
      sheetRules.read = .ok x' ∧
      plan sheetsDisk ⟨"/site"⟩ c' x' = .ok [⟨⟨"/site/a.css"⟩, "a.css", .css⟩] := by
  have hd : sheetsDisk.IsTree := by decide +kernel
  have hloc : sheetsDisk.locate true ⟨"/site"⟩ = .ok (["site"], .dir 0o755) := rfl
  have hread : sheetsDisk.readDir ⟨"/site"⟩ = .ok [("a.css", .file 0o644 "body".toUTF8),
      ("b.css", .file 0o644 "p".toUTF8), ("robots.txt", .file 0o644 "x".toUTF8)] :=
    readDir_of_sorted hloc rfl rfl (by decide +kernel)
  have hfiles : ([("a.css", .file 0o644 "body".toUTF8), ("b.css", .file 0o644 "p".toUTF8),
      ("robots.txt", .file 0o644 "x".toUTF8)] : List (String × Entry)).filterMap
        (planFor? ⟨"/site"⟩ .standard {}) = sheetPlans := by decide +kernel
  have hplan : plan sheetsDisk ⟨"/site"⟩ .standard {} = .ok sheetPlans := by
    simp only [plan, hread, planEntries, hfiles]
    rw [List.mergeSort_of_pairwise (by decide +kernel)]
  have hrules : sheetRules.read = .ok ⟨[], [], [⟨[.char 'b', .char '.', .run]⟩], []⟩ := rfl
  have hextended : ({} : Settings).Extended { exclusion := sheetRules, reserved := ["robots.txt"] }
      sheetRules ["robots.txt"] := by
    constructor <;> simp
  have hkept : ¬ sheetRules.Match "a.css" := by
    have hname : Path.fileName? ⟨"/site/a.css"⟩ = some "a.css" := by decide +kernel
    rw [← matchesFile_iff hrules hname]
    decide +kernel
  have hmatched : sheetRules.Match "b.css" := by
    have hname : Path.fileName? ⟨"/site/b.css"⟩ = some "b.css" := by decide +kernel
    rw [← matchesFile_iff hrules hname]
    decide +kernel
  obtain ⟨plans, hplans, -, -, -, hmore⟩ := plan_extended hd hread (s := {}) (c := .standard) (x := {})
    rfl rfl
  obtain rfl := Except.ok.inj (hplan.symm.trans hplans)
  obtain ⟨c', x', keep, hc', hx', hkeep, hplan'⟩ := hmore _ _ _ _ hextended hrules
  refine ⟨hd, ⟨_, hread⟩, rfl, rfl, hplan, hextended, c', x', hc', hx', ?_⟩
  rw [hplan', sheetPlans, List.filter_cons_of_pos ((hkeep _).2 (by simp [hkept])),
    List.filter_cons_of_neg (fun h => (hkeep _).1 h (Or.inl hmatched)),
    List.filter_cons_of_neg (fun h => (hkeep _).1 h (Or.inr (by simp))), List.filter_nil]

end Move

end SiteFolders
