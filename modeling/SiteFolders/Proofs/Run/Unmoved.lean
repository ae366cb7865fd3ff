import SiteFolders.Proofs.Move.Outcome
import SiteFolders.Proofs.Reference.Untouched
import SiteFolders.Proofs.Run.RoundTrip

/-!
# Files that a run does not move

A file that is not moved stays where it is, and all that can happen to it is that its text is
updated, once or several times. So whatever is listed, and wherever the files of the list lie, the
attributes that have nothing to do with the moved files are found in it again
(`organize_keeps_attributes`). What a value resolves to is not asked for: an attribute that names an
unmoved file is written anew if it bears the name of a moved one (`organize_rewrites_unmoved`).
-/

namespace SiteFolders

open Disk Move Regex
open SiteFolders.Reference
open SiteFolders.Text (Spelled)

/-! ## Updates -/

/-- Bytes that stay, or a text in place of a text that has kept its attributes. -/
def KeepsBytes (moved : List Moved) (bytes bytes' : ByteArray) : Prop :=
  bytes' = bytes ∨ ∃ before after : String, bytes = before.toUTF8 ∧ bytes' = after.toUTF8 ∧
    KeepsAttributes moved before.toList after.toList

/-- All regular files are where they were, with bytes that have kept their attributes. -/
def KeepsTexts (moved : List Moved) (d d' : Disk) : Prop :=
  ∀ loc mode bytes, d.get? loc = some (.file mode bytes) →
    ∃ bytes', d'.get? loc = some (.file mode bytes') ∧ KeepsBytes moved bytes bytes'

section

variable {moved : List Moved}

theorem KeepsBytes.exists_text {text : String} {bytes : ByteArray}
    (h : KeepsBytes moved text.toUTF8 bytes) :
    ∃ after : String, bytes = after.toUTF8 ∧ KeepsAttributes moved text.toList after.toList := by
  rcases h with rfl | ⟨before, after, heq, rfl, hkeeps⟩
  · exact ⟨text, rfl, .refl moved _⟩
  · have hsame := congrArg String.fromUTF8? heq
    rw [fromUTF8?_toUTF8, fromUTF8?_toUTF8, Option.some.injEq] at hsame
    subst hsame
    exact ⟨after, rfl, hkeeps⟩

theorem KeepsBytes.trans {bytes bytes' bytes'' : ByteArray} (h : KeepsBytes moved bytes bytes')
    (h' : KeepsBytes moved bytes' bytes'') : KeepsBytes moved bytes bytes'' := by
  rcases h with rfl | ⟨before, after, rfl, rfl, hkeeps⟩
  · exact h'
  · obtain ⟨last, rfl, hkeeps'⟩ := h'.exists_text
    exact Or.inr ⟨before, last, rfl, rfl, hkeeps.trans hkeeps'⟩

theorem KeepsTexts.refl (moved : List Moved) (d : Disk) : KeepsTexts moved d d :=
  fun _ _ bytes h => ⟨bytes, h, Or.inl rfl⟩

theorem KeepsTexts.trans {d d' d'' : Disk} (h : KeepsTexts moved d d')
    (h' : KeepsTexts moved d' d'') : KeepsTexts moved d d'' := by
  intro loc mode bytes hfile
  obtain ⟨bytes', hfile', hkeeps⟩ := h loc mode bytes hfile
  obtain ⟨bytes'', hfile'', hkeeps'⟩ := h' loc mode bytes' hfile'
  exact ⟨bytes'', hfile'', hkeeps.trans hkeeps'⟩

variable (hne : ∀ m ∈ moved, m.oldName.toList ≠ [])
include hne

/-- The update of one file, wherever its path leads. -/
theorem keepsTexts_updateFile {loose changed : Bool} {p : Path} {d d' : Disk}
    (h : updateFile loose moved p d = .ok (changed, d')) : KeepsTexts moved d d' := by
  rcases updateFile_cases h with ⟨-, rfl, -⟩ | ⟨-, place, hwritten, -, -, hothers⟩
  · exact .refl moved d'
  · obtain ⟨mode, bytes, text, hlocate, -, htext, -, hget⟩ := hwritten
    have hplace := (locate_eq_ok_iff.1 hlocate).2
    intro loc mode' bytes' hfile
    by_cases hloc : loc = place
    · subst hloc
      obtain ⟨rfl, rfl⟩ : mode = mode' ∧ bytes = bytes' := by simpa [hplace] using hfile
      refine ⟨_, hget, Or.inr ⟨text, _, (toUTF8_of_fromUTF8? htext).symm, rfl, ?_⟩⟩
      rw [updatedText, String.toList_ofList]
      exact keepsAttributes_update hne loose _ text.toList
    · exact ⟨bytes', by rw [hothers loc hloc, hfile], Or.inl rfl⟩

/-- An update of a list of files, whatever becomes of them. -/
theorem keepsTexts_updateEach (o : Reference.Options) (files : List Path) (d : Disk) :
    KeepsTexts moved d (updateEach o moved files d).disk :=
  updateEach_keeps o moved (.refl moved) .trans (keepsTexts_updateFile hne) files d

end

/-! ## The whole run -/

/-- In a project without links, a file that a run has not moved is where it was, and in its text every
attribute is found again, as it was and in the same order, that has nothing to do with the names of the
moved files. -/
theorem organize_keeps_attributes {d : Disk} (hd : d.IsTree) {o : RunSetup} {root : Path}
    {home : Location} {top : Entry} (hroot : d.locate true root = .ok (home, top))
    (hfree : d.LinkFree home) {report : Report} (hrun : (organize o root d).result = .ok report)
    {loc : Location} {mode : Nat} {bytes : ByteArray} (hfile : d.get? loc = some (.file mode bytes))
    (hunmoved : ∀ m ∈ report.moved, loc ≠ m.oldName :: home) :
    ∃ bytes', (organize o root d).disk.get? loc = some (.file mode bytes') ∧
      KeepsBytes report.moved bytes bytes' := by
  obtain ⟨hresolved, plans, moves, between, hplan, hexec, hmoves, -, hafter⟩ :=
    moves_of_organize hrun
  obtain ⟨heq, hhome⟩ := isHome_of_resolvedRoot hd hroot hresolved
  obtain ⟨dirMode, hmode⟩ := hhome.get?
  have hlocate := hhome.locate hd true hmode
  rw [← heq] at hlocate
  obtain ⟨hout, -, hfiles, -⟩ := execute_outcome hd hlocate hfree hplan hexec
  rw [hmoves] at hfiles
  -- the moves leave the file as it is, and the updates rewrite its text
  have hbetween : between.get? loc = some (.file mode bytes) := by
    refine hout.kept loc _ hfile fun m hm => ?_
    rw [hmoves] at hm
    exact hunmoved m hm
  have hne : ∀ m ∈ report.moved, m.oldName.toList ≠ [] := by
    intro m hm
    obtain ⟨-, -, e, -, he, -⟩ := hfiles m hm
    simpa using (hd.isName_of_get? he).ne_empty
  have hkeeps : KeepsTexts report.moved between (organize o root d).disk := by
    rcases hafter with ⟨-, hdisk⟩ | ⟨listing, -, hupdates⟩
    · rw [hdisk]
      exact .refl _ _
    · rw [hupdates.disk]
      exact keepsTexts_updateEach hne o.references _ between
  exact hkeeps loc mode bytes hbetween

/-! ## Two pictures of one name -/

/-- A page of a folder with two references: one to the page at the root, and one to the picture that
lies beside it. -/
def aboutPage : String := "<a href = '../index.html'><img src=\"logo.png\"></a>"

/-- A project with a picture at the root that has the name of another one in a folder. -/
def logoDisk : Disk where
  entries := [(["site"], .dir 0o755), (["img", "site"], .dir 0o755),
    (["index.html", "site"], .file 0o644 "home".toUTF8),
    (["logo.png", "site"], .file 0o644 "new".toUTF8), (["pages", "site"], .dir 0o755),
    (["about.html", "pages", "site"], .file 0o644 aboutPage.toUTF8),
    (["logo.png", "pages", "site"], .file 0o644 "old".toUTF8)]

/-- The plans for the project. -/
def logoPlans : List Planned := [⟨⟨"/site/logo.png"⟩, "logo.png", .img⟩]

/-- The picture that moves. -/
def logoMoved : List Moved := [⟨"logo.png", "img/logo.png", ⟨"/site/img/logo.png"⟩⟩]

/-- The project after the move. -/
def logoBetween : Disk where
  entries := [(["site"], .dir 0o755), (["img", "site"], .dir 0o755),
    (["index.html", "site"], .file 0o644 "home".toUTF8),
    (["logo.png", "img", "site"], .file 0o644 "new".toUTF8), (["pages", "site"], .dir 0o755),
    (["about.html", "pages", "site"], .file 0o644 aboutPage.toUTF8),
    (["logo.png", "pages", "site"], .file 0o644 "old".toUTF8)]

/-- What is listed then. -/
def logoPaths : List Path :=
  [⟨"/site/img/logo.png"⟩, ⟨"/site/index.html"⟩, ⟨"/site/pages/about.html"⟩,
    ⟨"/site/pages/logo.png"⟩]

theorem plan_logoDisk : Move.plan logoDisk ⟨"/site"⟩ .standard {} = .ok logoPlans := by
  have hloc : logoDisk.locate true ⟨"/site"⟩ = .ok (["site"], .dir 0o755) := rfl
  have hread : logoDisk.readDir ⟨"/site"⟩ = .ok [("img", .dir 0o755),
      ("index.html", .file 0o644 "home".toUTF8), ("logo.png", .file 0o644 "new".toUTF8),
      ("pages", .dir 0o755)] :=
    readDir_of_sorted hloc rfl rfl (by decide +kernel)
  have hplans : ([("img", .dir 0o755), ("index.html", .file 0o644 "home".toUTF8),
      ("logo.png", .file 0o644 "new".toUTF8), ("pages", .dir 0o755)] :
      List (String × Entry)).filterMap (planFor? ⟨"/site"⟩ .standard {}) = logoPlans := by
    decide +kernel
  simp only [Move.plan, hread, planEntries, hplans]
  rw [logoPlans, List.mergeSort_singleton]

theorem walk_logoBetween : Listing.walk standardSkippedDirs logoBetween ⟨"/site"⟩ =
    .ok ⟨logoPaths, []⟩ := by
  have hloc : logoBetween.locate true ⟨"/site"⟩ = .ok (["site"], .dir 0o755) := rfl
  have hsite : logoBetween.readDir ⟨"/site"⟩ = .ok [("img", .dir 0o755),
      ("index.html", .file 0o644 "home".toUTF8), ("pages", .dir 0o755)] :=
    readDir_of_sorted hloc rfl rfl (by decide +kernel)
  have hloc' : logoBetween.locate true ⟨"/site/img"⟩ = .ok (["img", "site"], .dir 0o755) := rfl
  have himg : logoBetween.readDir ⟨"/site/img"⟩ =
      .ok [("logo.png", .file 0o644 "new".toUTF8)] :=
    readDir_of_sorted hloc' rfl rfl (by decide +kernel)
  have hloc'' : logoBetween.locate true ⟨"/site/pages"⟩ = .ok (["pages", "site"], .dir 0o755) := rfl
  have hpages : logoBetween.readDir ⟨"/site/pages"⟩ =
      .ok [("about.html", .file 0o644 aboutPage.toUTF8), ("logo.png", .file 0o644 "old".toUTF8)] :=
    readDir_of_sorted hloc'' rfl rfl (by decide +kernel)
  have hlstat : logoBetween.lstat ⟨"/site"⟩ = .ok (.dir 0o755) := rfl
  have hjoin : (Path.mk "/site").join "img" = ⟨"/site/img"⟩ ∧
      (Path.mk "/site").join "pages" = ⟨"/site/pages"⟩ := by decide +kernel
  have hskip : standardSkippedDirs.contains "img" = false ∧
      standardSkippedDirs.contains "pages" = false := by decide +kernel
  have hdepth : logoBetween.entries.length = 7 := rfl
  simp only [Listing.walk, hlstat, hsite, hdepth, Listing.listEntries, hskip, hjoin,
    Listing.listBelow, himg, hpages]
  rfl

theorem execute_logoDisk : Move.execute ⟨"/site"⟩ logoPlans logoDisk =
    (.ok ⟨logoMoved, []⟩, logoBetween) := rfl

/-- The run moves the picture at the root, and the reference to the other one leads there. -/
theorem organize_logoDisk : ∃ report, (organize {} ⟨"/site"⟩ logoDisk).result = .ok report ∧
    report.moved = logoMoved ∧
    ((organize {} ⟨"/site"⟩ logoDisk).disk.readText ⟨"/site/pages/about.html"⟩).toOption =
      some "<a href = '../index.html'><img src=\"../img/logo.png\"></a>" := by
  have hroot : resolvedRoot logoDisk ⟨"/site"⟩ = .ok ⟨"/site"⟩ := rfl
  have hresult : (updateFiles {} logoMoved logoPaths logoBetween).result.toOption.any
      (fun _ => true) = true := by decide +kernel
  have hpage : ((updateFiles {} logoMoved logoPaths logoBetween).disk.readText
      ⟨"/site/pages/about.html"⟩).toOption =
        some "<a href = '../index.html'><img src=\"../img/logo.png\"></a>" := by
    decide +kernel
  obtain ⟨summary, hupdate, -⟩ := any_toOption_eq_true_iff.1 hresult
  obtain ⟨report, hrun, hmoved, -, -, hdisk⟩ := organize_of_phases (o := {}) hroot plan_logoDisk
    execute_logoDisk (by simp [logoMoved]) walk_logoBetween hupdate
  refine ⟨report, hrun, hmoved, ?_⟩
  rw [hdisk]
  exact hpage

/-- The reference to the page at the root. -/
def homeAttribute : Attribute where
  keyword := "href".toList
  before := [' ']
  after := [' ']
  quote := '\x27'
  value := "../index.html".toList

/-- The reference to the picture beside the page. -/
def logoAttribute : Attribute where
  keyword := "src".toList
  before := []
  after := []
  quote := '"'
  value := "logo.png".toList

theorem isQuoted_homeAttribute : homeAttribute.IsQuoted := by
  have hblank : AllBlank [' '] := by simp [AllBlank, Text.isBlank]
  exact Attribute.isQuoted_of_isValue (Or.inl (by decide)) hblank hblank (by decide) (by decide)

theorem spares_homeAttribute : homeAttribute.Spares "logo.png".toList := by
  constructor
  · intro h
    have hspelled : Spelled "logo.png".toList "index.html".toList := by
      have hld : Matches lead "../".toList := matches_lead_ups 1
      have hstands : StandsIn "logo.png".toList
          ('\x27' :: (("../".toList ++ "index.html".toList) ++ ['\x27'])) := h
      exact spelled_of_standsIn (by decide) (by decide) hld (by decide) (by decide) hstands
    exact absurd hspelled (by decide)
  · decide
  · intro c hc
    obtain rfl : 'g' = c := by simpa using hc
    decide
  · -- the name does not end as the keyword does
    intro _ u h
    obtain ⟨k, hk, hsame⟩ := h.exists_of_getLast? (c := 'f') (by simp [homeAttribute])
    obtain rfl : 'g' = k := by simpa using hk
    exact absurd hsame (by decide)

/-- The reference to the page at the root stays. -/
theorem organize_keeps_attributes_of_logoDisk : ∃ report,
    (organize {} ⟨"/site"⟩ logoDisk).result = .ok report ∧ report.moved = logoMoved ∧
    ∃ after : String, (organize {} ⟨"/site"⟩ logoDisk).disk.get? ["about.html", "pages", "site"] =
      some (.file 0o644 after.toUTF8) ∧
      ∃ gap rest, after.toList = gap ++ (homeAttribute.text ++ rest) := by
  obtain ⟨report, hrun, hmoved, -⟩ := organize_logoDisk
  have hd : logoDisk.IsTree := by decide +kernel
  have hroot : logoDisk.locate true ⟨"/site"⟩ = .ok (["site"], .dir 0o755) := rfl
  have hfree : logoDisk.LinkFree ["site"] := linkFree_of_entries (by decide +kernel) _
  have hfile : logoDisk.get? ["about.html", "pages", "site"] =
      some (.file 0o644 aboutPage.toUTF8) := rfl
  have hunmoved : ∀ m ∈ report.moved, ["about.html", "pages", "site"] ≠ m.oldName :: ["site"] := by
    intro m _ heq
    simp at heq
  obtain ⟨bytes, hget, hkeeps⟩ := organize_keeps_attributes hd hroot hfree hrun hfile hunmoved
  obtain ⟨after, rfl, hkept⟩ := hkeeps.exists_text
  have hpage : aboutPage.toList = weave [("<a ".toList, homeAttribute)]
      "><img src=\"logo.png\"></a>".toList := by decide +kernel
  obtain ⟨woven, rest, htext, hsame⟩ := hkept _ _ hpage (by
    intro a ha
    obtain rfl := List.mem_singleton.1 ha
    refine ⟨isQuoted_homeAttribute, ?_⟩
    rw [hmoved]
    intro m hm
    obtain rfl := List.mem_singleton.1 hm
    exact spares_homeAttribute)
  refine ⟨report, hrun, hmoved, after, hget, ?_⟩
  obtain ⟨x, hx, hattribute⟩ := List.map_eq_singleton_iff.1 hsame
  refine ⟨x.1, rest, ?_⟩
  have hsnd : x.2 = homeAttribute := hattribute
  rw [htext, hx, weave, hsnd, weave]

/-- A reference to an unmoved file is written anew: a file of the same name has moved. -/
theorem organize_rewrites_unmoved : logoDisk.IsTree ∧ logoDisk.LinkFree ["site"] ∧
    logoDisk.locate true ⟨"/site"⟩ = .ok (["site"], .dir 0o755) ∧
    (∃ report, (organize {} ⟨"/site"⟩ logoDisk).result = .ok report ∧ report.moved = logoMoved) ∧
    (∀ m ∈ logoMoved, ["about.html", "pages", "site"] ≠ m.oldName :: ["site"] ∧
      ["logo.png", "pages", "site"] ≠ m.oldName :: ["site"]) ∧
    (logoDisk.get? ["logo.png", "pages", "site"]).any Entry.isFile = true ∧
    Path.resolve ⟨"/site/pages"⟩ "logo.png" = (Path.mk "/site/pages/logo.png").components ∧
    (logoDisk.readText ⟨"/site/pages/about.html"⟩).toOption = some aboutPage ∧
    String.ofList logoAttribute.value = "logo.png" ∧ logoAttribute.text <:+: aboutPage.toList ∧
    ∃ after, ((organize {} ⟨"/site"⟩ logoDisk).disk.readText ⟨"/site/pages/about.html"⟩).toOption =
      some after ∧ ¬ logoAttribute.text <:+: after.toList := by
  obtain ⟨report, hrun, hmoved, hpage⟩ := organize_logoDisk
  have hd : logoDisk.IsTree := by decide +kernel
  have hfree : logoDisk.LinkFree ["site"] := linkFree_of_entries (by decide +kernel) _
  have hbefore : (logoDisk.readText ⟨"/site/pages/about.html"⟩).toOption = some aboutPage := by
    decide +kernel
  have hresolve : Path.resolve ⟨"/site/pages"⟩ "logo.png" =
      (Path.mk "/site/pages/logo.png").components := by decide +kernel
  exact ⟨hd, hfree, rfl, ⟨report, hrun, hmoved⟩, by decide, rfl, hresolve, hbefore, by decide,
    by decide +kernel, _, hpage, by decide +kernel⟩

end SiteFolders
