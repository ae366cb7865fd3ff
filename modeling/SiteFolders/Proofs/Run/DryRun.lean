import Mathlib.Algebra.GroupWithZero.Nat
import SiteFolders.CommandLine.Program
import SiteFolders.Proofs.Move.Outcome
import SiteFolders.Proofs.Path.Descent
import SiteFolders.Proofs.Run.RoundTrip

/-!
# What a dry run shows

A dry run shows the plans of a run and changes nothing. A run that ends well has gone through the
same plans in the same order, and records each of them: as a file that has moved, under the name and
in the folder that were planned, or as a skipped one (`Recorded`). So what has moved is what was
planned less what was skipped, and the counts of a run that skips nothing are those of the dry run
(`dryRun_truthful`).
-/

namespace SiteFolders

open Move

/-! ## Folders of moved files -/

/-- The record of a planned file that has moved, under a candidate for its name. -/
def Move.Planned.record (p : Planned) (root : Path) (k : Nat) : Reference.Moved :=
  let target := (root.join p.category.folder).join (candidate p.fileName k)
  ⟨p.fileName, Path.below root target, target⟩

/-- The place of a moved file below the root, as it is reported. -/
theorem newRelative_record {root : Path} (hroot : root.text ≠ "") {p : Planned}
    (hn : IsName p.fileName) (k : Nat) : (p.record root k).newRelative =
      p.category.folder ++ "/" ++ Path.withSlashes (candidate p.fileName k) := by
  have hfolder := isName_folder p.category
  have hcandidate := isName_candidate hn k
  have hnames : ∀ n ∈ [candidate p.fileName k, p.category.folder], IsName n := by
    simp [hfolder, hcandidate]
  have hbelow : Path.stripPrefix? root (p.record root k).target =
      some ((Path.inside [p.category.folder]).join (candidate p.fileName k)) :=
    Path.stripPrefix?_descend hnames hroot rfl
  have htext : ((Path.inside [p.category.folder]).join (candidate p.fileName k)).text =
      p.category.folder ++ "/" ++ candidate p.fileName k := by
    have hjoin : ((Path.inside [p.category.folder]).join (candidate p.fileName k)).text =
        (Path.inside [p.category.folder]).text ++ "/" ++ candidate p.fileName k :=
      Path.text_join_join hfolder hcandidate ⟨""⟩
    rw [hjoin, Path.inside_single hfolder]
  have hslashes : Path.withSlashes (p.category.folder ++ "/") = p.category.folder ++ "/" := by
    refine Path.withSlashes_of_no_backslash fun hmem => ?_
    rw [String.toList_append, List.mem_append] at hmem
    rcases hmem with hmem | hmem
    · exact absurd ((Reference.isOrdinary_folder p.category).plain _ hmem) (by decide)
    · exact absurd hmem (by decide)
  change Path.below root (p.record root k).target = _
  rw [Path.below, hbelow, Option.getD_some, htext, Path.withSlashes_append, hslashes]

/-- The folder of a moved file can be read off its place below the root. -/
theorem folderOf_record {root : Path} (hroot : root.text ≠ "") {p : Planned}
    (hn : IsName p.fileName) (k : Nat) : folderOf (p.record root k) = p.category.folder := by
  have htake : (p.category.folder.toList ++
      '/' :: (Path.withSlashes (candidate p.fileName k)).toList).takeWhile (· != '/') =
        p.category.folder.toList := by
    rw [List.takeWhile_append_of_pos, List.takeWhile_cons_of_neg (by simp), List.append_nil]
    intro c hc
    simp only [bne_iff_ne]
    rintro rfl
    exact (isName_folder p.category).no_slash hc
  have hplace : (p.record root k).newRelative.toList = p.category.folder.toList ++
      '/' :: (Path.withSlashes (candidate p.fileName k)).toList := by
    simp [newRelative_record hroot hn k]
  rw [folderOf, hplace, htake, String.ofList_toList]

/-! ## Counts -/

theorem sum_countName (counts : List (String × Nat)) (name : String) :
    ((countName counts name).map Prod.snd).sum = (counts.map Prod.snd).sum + 1 := by
  induction counts with
  | nil => rfl
  | cons c rest ih =>
    simp only [countName]
    split
    · simp only [List.map_cons, List.sum_cons]
      omega
    · simp only [List.map_cons, List.sum_cons, ih]
      omega

/-- Every name is counted once. -/
theorem sum_countNames (names : List String) :
    ((countNames names).map Prod.snd).sum = names.length := by
  have hfold : ∀ counts, ((names.foldl countName counts).map Prod.snd).sum =
      (counts.map Prod.snd).sum + names.length := by
    induction names with
    | nil => intro counts; rfl
    | cons name names ih =>
      intro counts
      rw [List.foldl_cons, ih, sum_countName, List.length_cons]
      omega
  simpa [countNames] using hfold []

theorem sum_folderCounts (r : Report) : (r.folderCounts.map Prod.snd).sum = r.moved.length := by
  rw [Report.folderCounts, sum_countNames, List.length_map]

/-! ## Records of a move phase -/

namespace Move

/-- What a phase has recorded of each of its plans, in their order. -/
inductive Recorded (root : Path) : List Planned → Result → Prop
  | nil : Recorded root [] {}
  | moved {rest : List Planned} {r : Result} (p : Planned) (k : Nat) (h : Recorded root rest r) :
      Recorded root (p :: rest) { r with moved := p.record root k :: r.moved }
  | skipped {rest : List Planned} {r : Result} (p : Planned) (cause : Trouble)
      (h : Recorded root rest r) :
      Recorded root (p :: rest) { r with skipped := ⟨p.source, cause⟩ :: r.skipped }

/-- A step records its file as moved to a candidate in its folder, or as skipped. -/
theorem step_of_moveOne {root : Path} {p : Planned} (hn : IsName p.fileName)
    (hsource : p.source = root.join p.fileName) {d after : Disk} {step : Step}
    (h : moveOne root p d = (.ok step, after)) :
    (∃ k, step = .moved (p.record root k)) ∨ ∃ cause, step = .skipped ⟨p.source, cause⟩ := by
  cases step with
  | stayed => exact absurd h (moveOne_ne_stayed hn hsource d after)
  | skipped s =>
    have hpath := path_of_skipped h
    exact Or.inr ⟨s.cause, by rw [← hpath]⟩
  | moved file =>
    left
    unfold moveOne at h
    simp only at h
    split at h
    · simp at h
    · next target made hdest =>
      obtain ⟨-, k, rfl, -⟩ := destination_eq_ok (isName_folder p.category) hn hdest
      split at h
      · simp at h
      · split at h
        · have hstep := congrArg Prod.fst h
          simp only [Except.ok.injEq, Step.moved.injEq] at hstep
          exact ⟨k, by rw [← hstep]; rfl⟩
        · simp at h

/-- A phase that goes through records all its plans. -/
theorem recorded_of_execute {root : Path} : ∀ {plans : List Planned} {d last : Disk} {r : Result},
    (∀ p ∈ plans, IsName p.fileName ∧ p.source = root.join p.fileName) →
    execute root plans d = (.ok r, last) → Recorded root plans r
  | [], d, last, r, _, h => by
    obtain ⟨hr, -⟩ := Prod.mk.inj h
    obtain rfl := Except.ok.inj hr
    exact .nil
  | p :: rest, d, last, r, hplans, h => by
    obtain ⟨hn, hsource⟩ := hplans p (by simp)
    obtain ⟨step, after, r', hone, hrest, rfl⟩ := execute_cons_eq_ok_iff.1 h
    have hrecorded := recorded_of_execute (fun q hq => hplans q (List.mem_cons_of_mem _ hq)) hrest
    rcases step_of_moveOne hn hsource hone with ⟨k, rfl⟩ | ⟨cause, rfl⟩
    · exact .moved p k hrecorded
    · exact .skipped p cause hrecorded

namespace Recorded

variable {root : Path} {plans : List Planned} {r : Result} (h : Recorded root plans r)
include h

theorem exists_of_mem_moved {m : Reference.Moved} (hm : m ∈ r.moved) :
    ∃ p ∈ plans, ∃ k, m = p.record root k := by
  induction h with
  | nil => simp at hm
  | moved p k _ ih =>
    rcases List.mem_cons.1 hm with rfl | hm
    · exact ⟨p, List.mem_cons_self, k, rfl⟩
    · obtain ⟨q, hq, j, heq⟩ := ih hm
      exact ⟨q, List.mem_cons_of_mem _ hq, j, heq⟩
  | skipped p cause _ ih =>
    obtain ⟨q, hq, j, heq⟩ := ih hm
    exact ⟨q, List.mem_cons_of_mem _ hq, j, heq⟩

theorem exists_of_mem_skipped {s : Skip} (hs : s ∈ r.skipped) : ∃ p ∈ plans, p.source = s.path := by
  induction h with
  | nil => simp at hs
  | moved p k _ ih =>
    obtain ⟨q, hq, hpath⟩ := ih hs
    exact ⟨q, List.mem_cons_of_mem _ hq, hpath⟩
  | skipped p cause _ ih =>
    rcases List.mem_cons.1 hs with rfl | hs
    · exact ⟨p, List.mem_cons_self, rfl⟩
    · obtain ⟨q, hq, hpath⟩ := ih hs
      exact ⟨q, List.mem_cons_of_mem _ hq, hpath⟩

/-- What has moved are the plans that are not skipped, with their names and folders. -/
theorem moved_eq (hroot : root.text ≠ "") (hnames : ∀ p ∈ plans, IsName p.fileName)
    (hnodup : (plans.map Planned.source).Nodup) :
    r.moved.map (fun m => (m.oldName, folderOf m)) =
      (plans.filter fun p => p.source ∉ r.skipped.map Skip.path).map
        fun p => (p.fileName, p.category.folder) := by
  induction h with
  | nil => rfl
  | @moved rest r p k hrest ih =>
    obtain ⟨hnot, hnodup⟩ := List.nodup_cons.1 hnodup
    have hn := hnames p (by simp)
    have ih := ih (fun q hq => hnames q (List.mem_cons_of_mem _ hq)) hnodup
    -- another plan has another source, so no file is both moved and skipped
    have hstays : p.source ∉ r.skipped.map Skip.path := by
      intro hmem
      obtain ⟨s, hs, hpath⟩ := List.mem_map.1 hmem
      obtain ⟨q, hq, hsame⟩ := hrest.exists_of_mem_skipped hs
      exact hnot (List.mem_map.2 ⟨q, hq, hsame.trans hpath⟩)
    rw [List.map_cons, ih, folderOf_record hroot hn, List.filter_cons_of_pos (by simpa using hstays)]
    rfl
  | @skipped rest r p cause hrest ih =>
    obtain ⟨hnot, hnodup⟩ := List.nodup_cons.1 hnodup
    have ih := ih (fun q hq => hnames q (List.mem_cons_of_mem _ hq)) hnodup
    have hsame : (rest.filter fun q => q.source ∉ p.source :: r.skipped.map Skip.path) =
        rest.filter fun q => q.source ∉ r.skipped.map Skip.path := by
      refine List.filter_congr fun q hq => ?_
      have hne : q.source ≠ p.source := fun heq => hnot (List.mem_map.2 ⟨q, hq, heq⟩)
      simp [hne]
    rw [List.map_cons, List.filter_cons_of_neg (by simp), hsame]
    exact ih

end Recorded

end Move

/-! ## Runs and dry runs -/

/-- The summary that a dry run shows is the one of its plans. -/
theorem mem_planShown_iff {root : Path} {plans : List Planned} {counts : List (String × Nat)}
    {total : Nat} : .summary counts total ∈ CommandLine.planShown root plans ↔
      plans ≠ [] ∧ counts = countNames (plans.map (·.category.folder)) ∧ total = plans.length := by
  unfold CommandLine.planShown
  cases plans <;> simp

/-- A dry run changes nothing, and a run of the same project that ends well does what it shows. The
files that have moved are the planned ones that are not skipped, in the same order, with the names
and folders that were planned. So if nothing is skipped, the dry run shows the counts of the run.
Counts add up to the number of files that have moved in any case. -/
theorem dryRun_truthful {d : Disk} (hd : d.IsTree) (o : RunSetup) (root : Path) :
    (CommandLine.dryRun o root d).disk = d ∧
    ∀ report, (organize o root d).result = .ok report →
      ∃ plans, plannedMoves o root d = .ok plans ∧
        report.moved.map (fun m => (m.oldName, folderOf m)) =
          (plans.filter fun p => p.source ∉ report.skipped.map Skip.path).map
            (fun p => (p.fileName, p.category.folder)) ∧
        (report.skipped = [] → ∀ counts total,
          .summary counts total ∈ (CommandLine.dryRun o root d).shown ↔
            report.moved ≠ [] ∧ counts = report.folderCounts ∧ total = report.moved.length) ∧
        (report.folderCounts.map Prod.snd).sum = report.moved.length := by
  refine ⟨by unfold CommandLine.dryRun; split <;> rfl, fun report h => ?_⟩
  obtain ⟨hroot, plans, moves, between, hplan, hexec, hmoved, hskipped, -⟩ := moves_of_organize h
  obtain ⟨home, -, -, hhere, hhome⟩ := home_of_resolvedRoot hd hroot
  have hplanned : plannedMoves o root d = .ok plans := by simp only [plannedMoves, hroot, hplan]
  have htext : report.root.text ≠ "" := by
    intro hempty
    have habsolute := Path.isAbsolute_ofLocation home
    simp [← hhere, Path.isAbsolute, hempty] at habsolute
  rw [hhere] at hplan
  obtain ⟨hplans, hnodup, -⟩ := plan_eq_ok hd hhome hplan
  have hat : ∀ p ∈ plans, PlannedAt d report.root home p := fun p hp => hhere ▸ (hplans p hp).plannedAt
  have hrecorded := recorded_of_execute (fun p hp => ⟨(hat p hp).isName, (hat p hp).source⟩) hexec
  have heq := hrecorded.moved_eq htext (fun p hp => (hat p hp).isName) (nodup_source hat hnodup)
  rw [hmoved, hskipped] at heq
  refine ⟨plans, hplanned, heq, fun hnone counts total => ?_, sum_folderCounts report⟩
  -- without skipped files, names and folders are those of the plans, one by one
  have hall : report.moved.map (fun m => (m.oldName, folderOf m)) =
      plans.map fun p => (p.fileName, p.category.folder) := by
    simpa [hnone] using heq
  have hfolders : report.moved.map folderOf = plans.map (·.category.folder) := by
    simpa [Function.comp_def] using congrArg (List.map Prod.snd) hall
  have hlength : report.moved.length = plans.length := by simpa using congrArg List.length hall
  have hempty : report.moved ≠ [] ↔ plans ≠ [] := by
    rw [← List.length_pos_iff, hlength, List.length_pos_iff]
  rw [CommandLine.dryRun, hplanned, mem_planShown_iff, hempty, Report.folderCounts, hfolders, hlength]

/-- The dry run of a project whose stylesheet has to take another name shows the folder of it. -/
theorem dryRun_truthful_of_styledDisk : styledDisk.IsTree ∧ ∃ report,
    (organize {} ⟨"/site"⟩ styledDisk).result = .ok report ∧ report.moved = styledMoved ∧
    (CommandLine.dryRun {} ⟨"/site"⟩ styledDisk).disk = styledDisk ∧
    .summary [("css", 1)] 1 ∈ (CommandLine.dryRun {} ⟨"/site"⟩ styledDisk).shown := by
  have htree : styledDisk.IsTree := by decide +kernel
  obtain ⟨report, hrun, hmoved, hskipped, -⟩ := organize_styledDisk
  obtain ⟨hdisk, htruth⟩ := dryRun_truthful htree {} ⟨"/site"⟩
  obtain ⟨plans, -, -, hcounts, -⟩ := htruth report hrun
  refine ⟨htree, report, hrun, hmoved, hdisk, (hcounts hskipped _ _).2 ⟨?_, ?_, ?_⟩⟩
  · simp [hmoved, styledMoved]
  · rw [Report.folderCounts, hmoved]
    decide +kernel
  · rw [hmoved]
    rfl

end SiteFolders
