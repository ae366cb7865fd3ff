import SiteFolders.Proofs.Run.DryRun

/-!
# Places below the root

A run reports a moved file with its path and with its place below the root, in which all backslashes
have become slashes. The folders of a run have no backslashes, and the candidates for a name have
one exactly if the name has, so the pieces of the place lead from the root to the file as long as its
name has no backslash (`pathBelow_record`). A name with a backslash is cut in two, and the pieces lead
to another path (`not_same_pathBelow_record`). In either case the file stays at its path for the rest
of the run (`organize_newRelative`).
-/

namespace SiteFolders

open Disk Move

/-! ## From a place below the root to a path -/

/-- The path to which the pieces of the place below the root lead from there. -/
def Reference.Moved.pathBelow (m : Reference.Moved) (root : Path) : Path :=
  root.joinAll (Path.segmentsOf m.newRelative)

section

variable {root : Path} (hroot : root.text ≠ "") {p : Planned} (hn : IsName p.fileName) (k : Nat)
include hroot hn

theorem pathBelow_record (hbackslash : '\\' ∉ p.fileName.toList) :
    (p.record root k).pathBelow root = (p.record root k).target := by
  have hcandidate : '\\' ∉ (candidate p.fileName k).toList := by
    intro hmem
    rcases mem_of_mem_candidate hmem with hmem | hdash | hdigit
    · exact hbackslash hmem
    · exact absurd hdash (by decide)
    · exact absurd hdigit (by decide)
  have hsegments : Path.segmentsOf (p.record root k).newRelative =
      [p.category.folder, candidate p.fileName k] := by
    rw [newRelative_record hroot hn, Path.withSlashes_of_no_backslash hcandidate,
      Path.segmentsOf_append_slash, Path.segmentsOf_of_no_slash (isName_folder _).no_slash,
      Path.segmentsOf_of_no_slash (isName_candidate hn k).no_slash, List.singleton_append]
  rw [Reference.Moved.pathBelow, hsegments]
  rfl

/-- None of the pieces has a backslash, so the last step to the file is not among them. -/
theorem not_same_pathBelow_record (hbackslash : '\\' ∈ p.fileName.toList) :
    ((p.record root k).pathBelow root).same (p.record root k).target = false := by
  have hpieces : ((p.record root k).pathBelow root).components = root.components ++
      (Path.segmentsOf (p.record root k).newRelative).filterMap Component.ofSegment? :=
    Path.components_joinAll_segments (fun s hs => Path.no_slash_of_mem_segmentsOf hs) hroot
  have htarget : (p.record root k).target.components = root.components ++
      [.name p.category.folder, .name (candidate p.fileName k)] := by
    change ((root.join p.category.folder).join (candidate p.fileName k)).components = _
    rw [Path.components_join (isName_candidate hn k), Path.components_join (isName_folder _),
      List.append_assoc, List.singleton_append]
  rw [Path.same, beq_eq_false_iff_ne, hpieces, htarget]
  intro hsame
  have hlast : .name (candidate p.fileName k) ∈
      (Path.segmentsOf (p.record root k).newRelative).filterMap Component.ofSegment? := by
    rw [List.append_cancel_left hsame]
    simp
  obtain ⟨s, hs, hstep⟩ := List.mem_filterMap.1 hlast
  obtain rfl : s = candidate p.fileName k := by
    unfold Component.ofSegment? at hstep
    split at hstep
    · simp at hstep
    · split at hstep
      · simp at hstep
      · simpa using hstep
  have hmem := Path.mem_of_mem_segmentsOf hs (mem_candidate hbackslash k)
  exact Path.no_backslash_withSlashes _ hmem

end

/-! ## The whole run -/

/-- After the moves, a run changes nothing but the bytes of regular files, also if it ends early. -/
theorem sameTree_organize {o : RunSetup} {root canonical : Path} {d between : Disk}
    {plans : List Planned} {moves : Move.Result} (hresolved : resolvedRoot d root = .ok canonical)
    (hplan : Move.plan d canonical o.classifier o.exclusion = .ok plans)
    (hexec : Move.execute canonical plans d = (.ok moves, between)) :
    between.SameTree (organize o root d).disk := by
  have hdisk : (organize o root d).disk = (afterMoves o canonical moves between).disk := by
    rw [organize_disk]
    simp only [runPhases, hresolved, hplan, hexec]
  rw [hdisk]
  rcases afterMoves_disk o canonical moves between with hsame | ⟨listing, -, hupdated⟩
  · rw [hsame]
    exact .refl between
  · rw [hupdated]
    exact (Reference.keepsTree_updateEach o.references moves.moved _ between).1

/-- A file that has come to its place is there as long as only the bytes of files change. -/
theorem Move.MovedTo.lstat {d between last : Disk} {root : Path} {home : Location} {p : Planned}
    {m : Reference.Moved} {k : Nat} (h : MovedTo d between root home p m k)
    (hn : IsName p.fileName) (hsame : between.SameTree last) :
    (last.lstat m.target).toOption.any Entry.isFile = true := by
  obtain ⟨e, he, hfile⟩ := (Option.any_eq_true _ _).1 h.isFile
  obtain ⟨e', he', hfile'⟩ := hsame.isFile (h.same.trans he) hfile
  have hslash : endsInSlash m.target = false := by
    rw [h.target]
    exact endsInSlash_join (isName_candidate hn k) _
  have hlocate := (hsame.keeps.leadsTo h.leads).locate hslash he'
  exact any_toOption_eq_true_iff.2 ⟨e', lstat_eq_ok_iff.2 ⟨_, hlocate⟩, hfile'⟩

/-- In a project without links, each file that has been moved is at its path when the run ends, well
or not, and its place below the root leads to that path exactly if its name has no backslash. -/
theorem organize_newRelative {d : Disk} (hd : d.IsTree) (o : RunSetup) {root canonical : Path}
    {home : Location} {top : Entry} (hroot : d.locate true root = .ok (home, top))
    (hfree : d.LinkFree home) (hresolved : resolvedRoot d root = .ok canonical)
    {plans : List Planned} (hplan : Move.plan d canonical o.classifier o.exclusion = .ok plans)
    {moves : Move.Result} {between : Disk}
    (hexec : Move.execute canonical plans d = (.ok moves, between)) :
    ∀ m ∈ moves.moved,
      ((organize o root d).disk.lstat m.target).toOption.any Entry.isFile = true ∧
      ('\\' ∉ m.oldName.toList → m.pathBelow canonical = m.target) ∧
      ('\\' ∈ m.oldName.toList → (m.pathBelow canonical).same m.target = false) := by
  intro m hm
  have hsame := sameTree_organize hresolved hplan hexec
  obtain ⟨rfl, hhome⟩ := isHome_of_resolvedRoot hd hroot hresolved
  have htext := Path.text_ofLocation_ne_empty home
  obtain ⟨hplans, hnodup, -⟩ := plan_eq_ok hd hhome hplan
  have hat : ∀ p ∈ plans, PlannedAt d (Path.ofLocation home) home p := fun p hp =>
    (hplans p hp).plannedAt
  have hout := outcome_execute hd (hhome.rootAt hd) hfree hat hnodup hexec
  refine ⟨?_, ?_⟩
  · obtain ⟨p, hp, k, hmoved⟩ := hout.moved m hm
    exact hmoved.lstat (hat p hp).isName hsame
  · have hrecorded := recorded_of_execute (fun p hp => ⟨(hat p hp).isName, (hat p hp).source⟩) hexec
    obtain ⟨p, hp, k, rfl⟩ := hrecorded.exists_of_mem_moved hm
    exact ⟨pathBelow_record htext (hat p hp).isName k,
      not_same_pathBelow_record htext (hat p hp).isName k⟩

/-- The file that has had to take another name is found from its place below the root. -/
theorem organize_newRelative_of_styledDisk : styledDisk.IsTree ∧ styledDisk.LinkFree ["site"] ∧
    resolvedRoot styledDisk ⟨"/site"⟩ = .ok ⟨"/site"⟩ ∧
    Move.plan styledDisk ⟨"/site"⟩ .standard {} = .ok styledPlans ∧
    Move.execute ⟨"/site"⟩ styledPlans styledDisk = (.ok ⟨styledMoved, []⟩, styledBetween) ∧
    ∀ m ∈ styledMoved,
      ((organize {} ⟨"/site"⟩ styledDisk).disk.lstat m.target).toOption.any Entry.isFile = true ∧
      m.pathBelow ⟨"/site"⟩ = m.target := by
  have hd : styledDisk.IsTree := by decide +kernel
  have hroot : styledDisk.locate true ⟨"/site"⟩ = .ok (["site"], .dir 0o755) := rfl
  have hfree : styledDisk.LinkFree ["site"] := linkFree_of_entries (by decide +kernel) _
  have hresolved : resolvedRoot styledDisk ⟨"/site"⟩ = .ok ⟨"/site"⟩ := rfl
  have hall := organize_newRelative hd {} hroot hfree hresolved plan_styledDisk execute_styledDisk
  refine ⟨hd, hfree, hresolved, plan_styledDisk, execute_styledDisk, fun m hm => ?_⟩
  obtain ⟨hfile, hplain, -⟩ := hall m hm
  refine ⟨hfile, hplain ?_⟩
  obtain rfl := List.mem_singleton.1 hm
  decide

/-! ## A name with a backslash -/

/-- A project with one stylesheet, whose name has a backslash. -/
def backslashDisk : Disk where
  entries := [(["site"], .dir 0o755), (["a\\b.css", "site"], .file 0o644 "body".toUTF8)]

/-- The plans for the project. -/
def backslashPlans : List Planned := [⟨⟨"/site/a\\b.css"⟩, "a\\b.css", .css⟩]

/-- The file that moves. -/
def backslashMoved : Reference.Moved := ⟨"a\\b.css", "css/a/b.css", ⟨"/site/css/a\\b.css"⟩⟩

theorem plan_backslashDisk :
    Move.plan backslashDisk ⟨"/site"⟩ .standard {} = .ok backslashPlans := by
  have hloc : backslashDisk.locate true ⟨"/site"⟩ = .ok (["site"], .dir 0o755) := rfl
  have hread : backslashDisk.readDir ⟨"/site"⟩ =
      .ok [("a\\b.css", .file 0o644 "body".toUTF8)] :=
    readDir_of_sorted hloc rfl rfl (by decide +kernel)
  have hplans : ([("a\\b.css", .file 0o644 "body".toUTF8)] : List (String × Entry)).filterMap
      (planFor? ⟨"/site"⟩ .standard {}) = backslashPlans := by
    decide +kernel
  simp only [Move.plan, hread, planEntries, hplans]
  rw [List.mergeSort_of_pairwise (by decide +kernel)]

theorem execute_backslashDisk : ∃ between,
    Move.execute ⟨"/site"⟩ backslashPlans backslashDisk = (.ok ⟨[backslashMoved], []⟩, between) :=
  ⟨_, execute_eq_of_records (by decide +kernel)⟩

/-- The pieces of the reported place lead from the root to another path than the file's. -/
theorem newRelative_cuts_name : backslashDisk.IsTree ∧ backslashDisk.LinkFree ["site"] ∧
    resolvedRoot backslashDisk ⟨"/site"⟩ = .ok ⟨"/site"⟩ ∧
    Move.plan backslashDisk ⟨"/site"⟩ .standard {} = .ok backslashPlans ∧
    (∃ between, Move.execute ⟨"/site"⟩ backslashPlans backslashDisk =
      (.ok ⟨[backslashMoved], []⟩, between)) ∧
    backslashMoved.pathBelow ⟨"/site"⟩ = ⟨"/site/css/a/b.css"⟩ ∧
    (backslashMoved.pathBelow ⟨"/site"⟩).same backslashMoved.target = false :=
  ⟨by decide +kernel, linkFree_of_entries (by decide +kernel) _, rfl, plan_backslashDisk,
    execute_backslashDisk, by decide +kernel, by decide +kernel⟩

end SiteFolders
