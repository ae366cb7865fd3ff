import SiteFolders.Proofs.Move.Outcome
import SiteFolders.Proofs.Reference.Places
import SiteFolders.Proofs.Run.RoundTrip

/-!
# Updating twice after a run

What a run has recorded of a moved file is where it has come to (`Recorded`), and from every
directory below the root the reference to that place is steady. So a second update with the records
of a run changes nothing that the first one has written (`organize_update_twice`), but for names
that hold delimiters and for references that are names of other moved files
(`organize_update_differs`).
-/

namespace SiteFolders

open Disk Move
open SiteFolders.Reference

/-! ## Records of a run -/

/-- What a run records of a file that it has moved to a place in a folder. -/
structure Recorded (between : Disk) (home : Location) (m : Moved) (category : Category) (k : Nat) :
    Prop where
  isName : IsName m.oldName
  no_dot : m.oldName.toList.head? ≠ some '.'
  target : m.target = Path.ofLocation (candidate m.oldName k :: category.folder :: home)
  isFile : (between.get? (candidate m.oldName k :: category.folder :: home)).any Entry.isFile = true

section

variable {d : Disk} (hd : d.IsTree) {o : RunSetup} {home : Location} (hhome : IsHome d home)
  (hfree : d.LinkFree home) {report : Report} (hroot : report.root = Path.ofLocation home)
  {between : Disk} {listing : Listing} (hphases : Phases o d report between listing)
include hd hhome hfree hroot hphases

theorem exists_outcome : ∃ plans moves, Move.Outcome d between report.root home plans moves ∧
    moves.moved = report.moved ∧ ∀ m ∈ report.moved, ∃ category,
      o.classifier.classify m.oldName = some category := by
  obtain ⟨plans, moves, hplan, hexec, hmoves, -⟩ := hphases.moves
  obtain ⟨mode, hmode⟩ := hhome.get?
  have hlocate := hhome.locate hd true hmode
  rw [← hroot] at hlocate
  obtain ⟨hout, -, hfiles, -⟩ := execute_outcome hd hlocate hfree hplan hexec
  refine ⟨plans, moves, hout, hmoves, fun m hm => ?_⟩
  obtain ⟨category, -, -, hclassify, -⟩ := hfiles m (hmoves ▸ hm)
  exact ⟨category, hclassify⟩

theorem recorded_of_phases : ∀ m ∈ report.moved, ∃ category k,
    Recorded between home m category k := by
  obtain ⟨plans, moves, hout, hmoves, hclassify⟩ := exists_outcome hd hhome hfree hroot hphases
  intro m hm
  obtain ⟨p, -, k, hmoved⟩ := hout.moved m (hmoves ▸ hm)
  obtain ⟨category, hc⟩ := hclassify m hm
  obtain ⟨e, he, hfile⟩ := (Option.any_eq_true _ _).1 hmoved.isFile
  have hname : IsName m.oldName := by
    rw [hmoved.oldName]
    exact hd.isName_of_get? he
  have hplace := hmoved.same.trans he
  rw [Planned.place, ← hmoved.oldName] at hplace
  refine ⟨p.category, k, hname, no_dot_of_classify hc, ?_, by rw [hplace]; exact hfile⟩
  have hbelow : ∀ n ∈ p.category.folder :: home, IsName n := by
    intro n hn
    rcases List.mem_cons.1 hn with rfl | hn
    · exact isName_folder _
    · exact hhome.isName hd n hn
  rw [Path.ofLocation_cons (isName_candidate hname k) hbelow,
    Path.ofLocation_cons (isName_folder _) (hhome.isName hd), hmoved.target, hroot, hmoved.oldName]

/-- What follows the moves changes nothing but the bytes of regular files. -/
theorem sameTree_of_updates {lister : Lister} {skipped : List String}
    (hlist : o.list = lister.list skipped) {last : Disk}
    (hupdates : Updates o report between last listing) :
    between.IsTree ∧ between.SameTree last := by
  obtain ⟨plans, moves, hout, -, -⟩ := exists_outcome hd hhome hfree hroot hphases
  obtain ⟨mode, hmode⟩ := hhome.get?
  have hlisted := hphases.listed
  rw [hlist, hroot] at hlisted
  have hmode' : between.get? home = some (.dir mode) := by
    refine hout.keeps.entry home _ hmode rfl
  have hlists := Listing.lists_of_list hout.isTree lister skipped hmode' hlisted
  obtain ⟨done, -, heach⟩ := exists_eachUpdated o.references report.moved
    ((hlists.unaliased hout.isTree).filter Path.isText)
  rw [hupdates.disk, updateFiles]
  exact ⟨hout.isTree, heach.sameTree⟩

end

/-- A reference from a directory to a recorded file is steady, if the former name is a word. -/
theorem steady_of_recorded {between : Disk} (htree : between.IsTree) {home below : Location}
    (hhome : ∀ n ∈ home, IsName n) {m : Moved} {category : Category} {k : Nat}
    (h : Recorded between home m category k)
    (hdir : (between.get? (below ++ home)).any Entry.isDir = true)
    (hname : IsWord m.oldName.toList) :
    Steady m.oldName.toList (m.reference (Path.ofLocation (below ++ home))) := by
  obtain ⟨e, he, hisDir⟩ := (Option.any_eq_true _ _).1 hdir
  obtain ⟨f, hf, hfile⟩ := (Option.any_eq_true _ _).1 h.isFile
  have hbelow : ∀ n ∈ below, IsName n := fun n hn =>
    htree.isName_of_mem (by simp [he] : (between.get? (below ++ home)).isSome) n
      (List.mem_append_left _ hn)
  -- nothing lies below a file, and it is no directory itself
  have hapart : ¬ (candidate m.oldName k :: category.folder :: home) <:+ below ++ home := by
    rintro ⟨more, hmore⟩
    cases more with
    | nil =>
      rw [← hmore, List.nil_append, hf, Option.some.injEq] at he
      rw [← he, isDir_of_isFile hfile] at hisDir
      simp at hisDir
    | cons n more =>
      have hleaf := htree.get?_below_leaf hf (isDir_of_isFile hfile) (List.cons_ne_nil n more)
      rw [hmore, he] at hleaf
      simp at hleaf
  obtain ⟨ups, ns, hreference, hns, -⟩ := Path.reference_eq_withSlashes hhome hbelow
    (isName_folder category) (isName_candidate h.isName k) hapart
  rw [Moved.reference, h.target, hreference]
  exact steady_of_place hname ⟨h.no_dot, h.isName.head?_ne_slash⟩ hns

/-- Once a run has gone through, an update with its records leaves only current mentions of the
moved files in a text of any directory below the root, and nothing for a second update to change: as
long as the former names are words and no reference from that directory names another of the moved
files in turn. -/
theorem organize_update_twice {d : Disk} (hd : d.IsTree) {o : RunSetup} {lister : Lister}
    {skipped : List String} (hlist : o.list = lister.list skipped) {root : Path} {home : Location}
    {top : Entry} (hroot : d.locate true root = .ok (home, top)) (hfree : d.LinkFree home)
    {report : Report} (hrun : (organize o root d).result = .ok report)
    (hwords : ∀ m ∈ report.moved, IsWord m.oldName.toList) {below : Location}
    (hdir : ((organize o root d).disk.get? (below ++ home)).any Entry.isDir = true)
    (hforeign : ∀ m ∈ report.moved, ∀ n ∈ report.moved,
      n.NamedBy (m.reference (Path.ofLocation (below ++ home))) → n = m)
    (loose : Bool) (text : List Char) :
    (∀ pass ∈ passes loose, ∀ m ∈ report.moved,
      AllCurrent pass m.oldName.toList (m.reference (Path.ofLocation (below ++ home)))
        (update loose report.moved (Path.ofLocation (below ++ home)) text).text) ∧
    (update loose report.moved (Path.ofLocation (below ++ home))
      (update loose report.moved (Path.ofLocation (below ++ home)) text).text).text =
        (update loose report.moved (Path.ofLocation (below ++ home)) text).text := by
  by_cases hmoved : report.moved = []
  · simp [hmoved]
  obtain ⟨hresolved, between, listing, hphases, hupdates⟩ := phases_of_organize hrun hmoved
  obtain ⟨heq, hhome⟩ := isHome_of_resolvedRoot hd hroot hresolved
  obtain ⟨htree, hsame⟩ := sameTree_of_updates hd hhome hfree heq hphases hlist hupdates
  have hdir' : (between.get? (below ++ home)).any Entry.isDir = true := by
    obtain ⟨e, he, hisDir⟩ := (Option.any_eq_true _ _).1 hdir
    have hleft : e.isFile = false := by cases e <;> simp_all [Entry.isFile, Entry.isDir]
    have hkept := hsame.symm.keeps.entry _ e he hleft
    rw [hkept]
    exact hisDir
  have hsteady : ∀ m ∈ report.moved,
      Steady m.oldName.toList (m.reference (Path.ofLocation (below ++ home))) := by
    intro m hm
    obtain ⟨category, k, hrecorded⟩ := recorded_of_phases hd hhome hfree heq hphases m hm
    exact steady_of_recorded htree (hhome.isName hd) hrecorded hdir' (hwords m hm)
  constructor
  · intro pass hpass m hm
    exact allCurrent_update hsteady hforeign loose text hpass hm
  · exact update_update hsteady hforeign loose text

/-- The stylesheet that gave way to another one bears a number that no other file has in its name.
-/
theorem organize_update_twice_of_taken_name : ∃ report,
    (organize {} ⟨"/site"⟩ styledDisk).result = .ok report ∧ report.moved = styledMoved ∧
    ((organize {} ⟨"/site"⟩ styledDisk).disk.get? ["css", "site"]).any Entry.isDir = true ∧
    ∀ text, (∀ pass ∈ passes true, ∀ m ∈ report.moved,
        AllCurrent pass m.oldName.toList (m.reference ⟨"/site/css"⟩)
          (update true report.moved ⟨"/site/css"⟩ text).text) ∧
      (update true report.moved ⟨"/site/css"⟩
        (update true report.moved ⟨"/site/css"⟩ text).text).text =
          (update true report.moved ⟨"/site/css"⟩ text).text := by
  obtain ⟨report, hrun, hmoved, -⟩ := organize_styledDisk
  have htree : styledDisk.IsTree := by decide +kernel
  have hlist : ({} : RunSetup).list = Lister.walk.list standardSkippedDirs := rfl
  have hroot : styledDisk.locate true ⟨"/site"⟩ = .ok (["site"], .dir 0o755) := rfl
  have hfree : styledDisk.LinkFree ["site"] := linkFree_of_entries (by decide +kernel) _
  have hdir : ((organize {} ⟨"/site"⟩ styledDisk).disk.get? (["css"] ++ ["site"])).any Entry.isDir =
      true := by
    have hresolved : resolvedRoot styledDisk ⟨"/site"⟩ = .ok ⟨"/site"⟩ := rfl
    have hdisk : ((updateFiles {} styledMoved styledPaths styledBetween).disk.get?
        ["css", "site"]).any Entry.isDir = true := by decide +kernel
    have hresult : (updateFiles {} styledMoved styledPaths styledBetween).result.toOption.any
        (fun _ => true) = true := by decide +kernel
    rw [organize_disk]
    simp only [runPhases, hresolved, plan_styledDisk, execute_styledDisk, afterMoves,
      walk_styledBetween, updateReferences]
    rw [if_neg (by decide)]
    cases hupdate : (updateFiles {} styledMoved styledPaths styledBetween).result with
    | error e => simp [hupdate, Except.toOption] at hresult
    | ok summary => exact hdisk
  have hplace : Path.ofLocation (["css"] ++ ["site"]) = ⟨"/site/css"⟩ := by decide +kernel
  have hwords : ∀ m ∈ report.moved, IsWord m.oldName.toList := by
    rw [hmoved]
    intro m hm
    obtain rfl := List.mem_singleton.1 hm
    exact ⟨by decide, by decide, by decide, not_endsAttribute_of_getLast? (by decide), by decide⟩
  have hforeign : ∀ m ∈ report.moved, ∀ n ∈ report.moved,
      n.NamedBy (m.reference (Path.ofLocation (["css"] ++ ["site"]))) → n = m := by
    rw [hmoved]
    intro m hm n hn _
    rw [List.mem_singleton.1 hm, List.mem_singleton.1 hn]
  refine ⟨report, hrun, hmoved, hdir, fun text => ?_⟩
  rw [← hplace]
  exact organize_update_twice htree hlist hroot hfree hrun hwords hdir hforeign true text

/-! ## A number that is another file's name -/

/-- A project in which a file has to give way, and the name that it gets is that of another file. -/
def licenseDisk : Disk where
  entries := [(["site"], .dir 0o755), (["LICENSE", "files", "site"], .file 0o644 "first".toUTF8),
    (["LICENSE", "site"], .file 0o644 "new".toUTF8),
    (["LICENSE-1", "site"], .file 0o644 "old".toUTF8), (["files", "site"], .dir 0o755)]

/-- The plans for the project. -/
def licensePlans : List Planned :=
  [⟨⟨"/site/LICENSE"⟩, "LICENSE", .files⟩, ⟨⟨"/site/LICENSE-1"⟩, "LICENSE-1", .files⟩]

/-- The files that move. -/
def licenseMoved : List Moved :=
  [⟨"LICENSE", "files/LICENSE-1", ⟨"/site/files/LICENSE-1"⟩⟩,
    ⟨"LICENSE-1", "files/LICENSE-1-1", ⟨"/site/files/LICENSE-1-1"⟩⟩]

/-- The project after the moves. -/
def licenseBetween : Disk where
  entries := [(["site"], .dir 0o755), (["LICENSE", "files", "site"], .file 0o644 "first".toUTF8),
    (["LICENSE-1", "files", "site"], .file 0o644 "new".toUTF8),
    (["LICENSE-1-1", "files", "site"], .file 0o644 "old".toUTF8), (["files", "site"], .dir 0o755)]

/-- What is listed then. -/
def licensePaths : List Path :=
  [⟨"/site/files/LICENSE"⟩, ⟨"/site/files/LICENSE-1"⟩, ⟨"/site/files/LICENSE-1-1"⟩]

theorem plan_licenseDisk : Move.plan licenseDisk ⟨"/site"⟩ .standard {} = .ok licensePlans := by
  have hloc : licenseDisk.locate true ⟨"/site"⟩ = .ok (["site"], .dir 0o755) := rfl
  have hread : licenseDisk.readDir ⟨"/site"⟩ =
      .ok [("LICENSE", .file 0o644 "new".toUTF8), ("LICENSE-1", .file 0o644 "old".toUTF8),
        ("files", .dir 0o755)] :=
    readDir_of_sorted hloc rfl rfl (by decide +kernel)
  have hplans : ([("LICENSE", .file 0o644 "new".toUTF8), ("LICENSE-1", .file 0o644 "old".toUTF8),
      ("files", .dir 0o755)] : List (String × Entry)).filterMap
        (planFor? ⟨"/site"⟩ .standard {}) = licensePlans := by
    decide +kernel
  simp only [Move.plan, hread, planEntries, hplans]
  rw [List.mergeSort_of_pairwise (by decide +kernel)]

theorem walk_licenseBetween : Listing.walk standardSkippedDirs licenseBetween ⟨"/site"⟩ =
    .ok ⟨licensePaths, []⟩ := by
  have hloc : licenseBetween.locate true ⟨"/site"⟩ = .ok (["site"], .dir 0o755) := rfl
  have hsite : licenseBetween.readDir ⟨"/site"⟩ = .ok [("files", .dir 0o755)] :=
    readDir_of_sorted hloc rfl rfl (by decide +kernel)
  have hloc' : licenseBetween.locate true ⟨"/site/files"⟩ =
      .ok (["files", "site"], .dir 0o755) := rfl
  have hfiles : licenseBetween.readDir ⟨"/site/files"⟩ =
      .ok [("LICENSE", .file 0o644 "first".toUTF8), ("LICENSE-1", .file 0o644 "new".toUTF8),
        ("LICENSE-1-1", .file 0o644 "old".toUTF8)] :=
    readDir_of_sorted hloc' rfl rfl (by decide +kernel)
  have hlstat : licenseBetween.lstat ⟨"/site"⟩ = .ok (.dir 0o755) := rfl
  have hjoin : (Path.mk "/site").join "files" = ⟨"/site/files"⟩ := by decide +kernel
  have hskip : standardSkippedDirs.contains "files" = false := by decide +kernel
  have hdepth : licenseBetween.entries.length = 5 := rfl
  simp only [Listing.walk, hlstat, hsite, hdepth, Listing.listEntries, hskip, hjoin,
    Listing.listBelow, hfiles]
  rfl

/-- The project after the first move. -/
def licenseMid : Disk where
  entries := [(["site"], .dir 0o755), (["LICENSE", "files", "site"], .file 0o644 "first".toUTF8),
    (["LICENSE-1", "files", "site"], .file 0o644 "new".toUTF8),
    (["LICENSE-1", "site"], .file 0o644 "old".toUTF8), (["files", "site"], .dir 0o755)]

theorem execute_licenseDisk : Move.execute ⟨"/site"⟩ licensePlans licenseDisk =
    (.ok ⟨licenseMoved, []⟩, licenseBetween) := by
  have hfirst : Move.moveOne ⟨"/site"⟩ ⟨⟨"/site/LICENSE"⟩, "LICENSE", .files⟩ licenseDisk =
      (.ok (.moved ⟨"LICENSE", "files/LICENSE-1", ⟨"/site/files/LICENSE-1"⟩⟩), licenseMid) := rfl
  have hsecond : Move.moveOne ⟨"/site"⟩ ⟨⟨"/site/LICENSE-1"⟩, "LICENSE-1", .files⟩ licenseMid =
      (.ok (.moved ⟨"LICENSE-1", "files/LICENSE-1-1", ⟨"/site/files/LICENSE-1-1"⟩⟩),
        licenseBetween) := rfl
  simp only [licensePlans, Move.execute, hfirst, hsecond]
  rfl

theorem organize_licenseDisk : ∃ report, (organize {} ⟨"/site"⟩ licenseDisk).result = .ok report ∧
    report.moved = licenseMoved ∧
    ((organize {} ⟨"/site"⟩ licenseDisk).disk.get? ["files", "site"]).any Entry.isDir = true := by
  have hroot : resolvedRoot licenseDisk ⟨"/site"⟩ = .ok ⟨"/site"⟩ := rfl
  have htexts : licensePaths.filter Path.isText = [] := by decide +kernel
  -- no text is listed, so nothing is updated
  have hupdate : updateFiles {} licenseMoved licensePaths licenseBetween = ⟨.ok {}, [], licenseBetween⟩ := by
    rw [updateFiles, htexts, updateEach]
  have hresult := congrArg Update.result hupdate
  obtain ⟨report, hrun, hmoved, -, -, hdisk⟩ := organize_of_phases (o := {}) hroot plan_licenseDisk
    execute_licenseDisk (by simp [licenseMoved]) walk_licenseBetween hresult
  refine ⟨report, hrun, hmoved, ?_⟩
  rw [hdisk, hupdate]
  decide +kernel

/-- The bare reference to a numbered file is the former name of another one, so a second update
takes it for that one. -/
theorem organize_update_differs : licenseDisk.IsTree ∧ licenseDisk.LinkFree ["site"] ∧
    (∃ report, (organize {} ⟨"/site"⟩ licenseDisk).result = .ok report ∧
      report.moved = licenseMoved ∧
      ((organize {} ⟨"/site"⟩ licenseDisk).disk.get? ["files", "site"]).any Entry.isDir = true) ∧
    (update true licenseMoved ⟨"/site/files"⟩ "<a href=\"../LICENSE\">".toList).text =
      "<a href=\"LICENSE-1\">".toList ∧
    (update true licenseMoved ⟨"/site/files"⟩
      (update true licenseMoved ⟨"/site/files"⟩ "<a href=\"../LICENSE\">".toList).text).text =
        "<a href=\"LICENSE-1-1\">".toList := by
  have horder : inOrder licenseMoved =
      [⟨"LICENSE-1", "files/LICENSE-1-1", ⟨"/site/files/LICENSE-1-1"⟩⟩,
        ⟨"LICENSE", "files/LICENSE-1", ⟨"/site/files/LICENSE-1"⟩⟩] := by
    have hsize : "LICENSE".utf8ByteSize = 7 ∧ "LICENSE-1".utf8ByteSize = 9 := by decide +kernel
    simp [inOrder, licenseMoved, List.mergeSort, List.MergeSort.Internal.splitInTwo, hsize]
  have honce : (update true licenseMoved ⟨"/site/files"⟩ "<a href=\"../LICENSE\">".toList).text =
      "<a href=\"LICENSE-1\">".toList := by
    rw [update, horder]
    decide +kernel
  refine ⟨by decide +kernel, linkFree_of_entries (by decide +kernel) _, organize_licenseDisk,
    honce, ?_⟩
  rw [honce, update, horder]
  decide +kernel

end SiteFolders
