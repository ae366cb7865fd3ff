import SiteFolders.Proofs.Move.Outcome
import SiteFolders.Proofs.Reference.Updates
import SiteFolders.Proofs.Run.RoundTrip

/-!
# Runs after a finished run

A run that skips nothing takes every planned file out of the root, and all it leaves there is what
was not planned and new folders. Updates change bytes only, so nothing is planned in what it leaves
(`Finished.plan_eq_nil`), and the next run does nothing and tells nothing (`organize_fixpoint`).
-/

namespace SiteFolders

open Disk Move
open SiteFolders.Reference

/-! ## The root -/

/-- A root is found under the same path as long as directories and links stay. -/
theorem resolvedRoot_of_keeps {d d' : Disk} (hd : d.IsTree) (hd' : d'.IsTree) (hkeeps : d.Keeps d')
    {root canonical : Path} (h : resolvedRoot d root = .ok canonical) :
    resolvedRoot d' root = .ok canonical := by
  obtain ⟨home, top, hlocate, rfl, hhome⟩ := home_of_resolvedRoot hd h
  obtain ⟨hresolve, htop⟩ := locate_eq_ok_iff.1 hlocate
  obtain ⟨mode, hmode⟩ := hhome.get?
  obtain rfl : top = .dir mode := Option.some.inj (htop.symm.trans hmode)
  have hcheck := (resolve_eq_ok_iff.1 hresolve).1
  obtain ⟨mode', hlocate'⟩ := ((rootAt_of_locate hlocate).keeps hkeeps).locate hcheck
  have hisDir : d'.isDir (Path.ofLocation home) = true := by
    have hhere := (hhome.keeps hkeeps).locate hd' true (locate_eq_ok_iff.1 hlocate').2
    exact isDir_iff_locate.2 ⟨home, mode', hhere⟩
  simp [resolvedRoot, canonical, hlocate', hisDir]

/-! ## What a finished run leaves -/

/-- What a run leaves that has ended well: the outcome of its moves, up to the bytes of files. -/
structure Finished (o : RunSetup) (d last : Disk) (home : Location) (report : Report) : Prop where
  isHome : IsHome d home
  root : report.root = Path.ofLocation home
  moves : ∃ plans r between, Move.plan d report.root o.classifier o.exclusion = .ok plans ∧
    r.moved = report.moved ∧ r.skipped = report.skipped ∧
    Move.Outcome d between report.root home plans r ∧ between.SameTree last
  isTree : last.IsTree

theorem finished_of_organize {o : RunSetup} {root : Path} {d : Disk} (hd : d.IsTree)
    {home : Location} {top : Entry} (hroot : d.locate true root = .ok (home, top))
    (hfree : d.LinkFree home) {report : Report} (h : (organize o root d).result = .ok report) :
    Finished o d (organize o root d).disk home report := by
  obtain ⟨hresolved, plans, moves, between, hplan, hexec, hmoved, hskipped, hafter⟩ :=
    moves_of_organize h
  obtain ⟨heq, hhome⟩ := isHome_of_resolvedRoot hd hroot hresolved
  obtain ⟨mode, hmode⟩ := hhome.get?
  have hlocate := hhome.locate hd true hmode
  rw [← heq] at hlocate
  have hout := (execute_outcome hd hlocate hfree hplan hexec).1
  have hupdated : between.SameTree (organize o root d).disk ∧
      (between.IsTree → (organize o root d).disk.IsTree) := by
    rcases hafter with ⟨-, hdisk⟩ | ⟨listing, -, hupdates⟩
    · rw [hdisk]
      exact ⟨.refl between, id⟩
    · exact hupdates.keepsTree
  exact ⟨hhome, heq, ⟨plans, moves, between, hplan, hmoved, hskipped, hout, hupdated.1⟩,
    hupdated.2 hout.isTree⟩

namespace Finished

variable {o : RunSetup} {d last : Disk} {home : Location} {report : Report}
  (h : Finished o d last home report)
include h

theorem keeps : d.Keeps last := by
  obtain ⟨plans, r, between, -, -, -, hout, hsame⟩ := h.moves
  exact hout.keeps.trans hsame.keeps

/-- A regular file of the root was there before, and if nothing was skipped, it was not planned. -/
theorem planFor?_eq_none (hd : d.IsTree) (hskipped : report.skipped = []) {n : String} {e : Entry}
    (he : last.get? (n :: home) = some e) :
    planFor? report.root o.classifier o.exclusion (n, e) = none := by
  obtain ⟨plans, r, between, hplan, -, hnone, hout, hsame⟩ := h.moves
  obtain ⟨mode, hmode⟩ := h.isHome.get?
  have hlocate := h.isHome.locate hd true hmode
  rw [← h.root] at hlocate
  by_contra hplanned
  obtain ⟨p, hp⟩ := Option.ne_none_iff_exists'.1 hplanned
  obtain ⟨hfile, hadmits, category, hclassify, -⟩ := planFor?_eq_some_iff.1 hp
  obtain ⟨e', he', hfile'⟩ := hsame.symm.isFile he hfile
  rcases hout.origin _ e' he' with ⟨hbefore, hother⟩ | ⟨m, hm, hleads, -⟩ | ⟨q, -, -, rfl⟩
  · -- the file was planned, so it has been moved
    have hmem : ⟨report.root.join n, n, category⟩ ∈ plans :=
      (mem_plan_iff hd hlocate hplan).2
        ⟨n, e', hbefore, planFor?_eq_some_iff.2 ⟨hfile', hadmits, category, hclassify, rfl⟩⟩
    have hsource : report.root.join n ∈ r.moved.map (fun m => report.root.join m.oldName) := by
      have hperm := hout.perm
      rw [hnone, hskipped, List.map_nil, List.append_nil] at hperm
      exact hperm.mem_iff.2 (List.mem_map_of_mem hmem)
    obtain ⟨m, hm, hjoin⟩ := List.mem_map.1 hsource
    obtain ⟨q, hq, k, hmoved⟩ := hout.moved m hm
    have hname := ((plan_spec hd hlocate hplan).1 q hq).1.isName
    rw [← hmoved.oldName] at hname
    have hnames := congrArg Path.fileName? hjoin
    rw [Path.fileName?_join hname, Path.fileName?_join (hd.isName_of_get? hbefore)] at hnames
    exact hother m hm (by rw [Option.some.inj hnames])
  · -- moved files lie in folders
    obtain ⟨q, -, k, hmoved⟩ := hout.moved m hm
    exact q.place_ne home k n (hmoved.leads.unique hleads)
  · simp [Entry.isFile] at hfile'

/-- Nothing is planned any more. -/
theorem plan_eq_nil (hd : d.IsTree) (hskipped : report.skipped = []) :
    Move.plan last report.root o.classifier o.exclusion = .ok [] := by
  obtain ⟨plans, r, between, hplan, -, -, -, -⟩ := h.moves
  rw [h.root] at hplan
  obtain ⟨-, -, entries, hread⟩ := plan_eq_ok hd h.isHome hplan
  obtain ⟨mode, hmode⟩ := h.isHome.get?
  have hhome := h.isHome.keeps h.keeps
  have hmode' := h.keeps.entry home _ hmode rfl
  rw [h.isHome.readDir hd hmode] at hread
  have hread' : last.readDir (Path.ofLocation home) = .ok (last.children home) := by
    rw [hhome.readDir h.isTree hmode', h.keeps.mayRead]
    split at hread
    · next hmay => rw [if_pos hmay]
    · simp at hread
  have hnone : (last.children home).filterMap (planFor? report.root o.classifier o.exclusion) = [] := by
    refine List.filterMap_eq_nil_iff.2 fun x hx => ?_
    exact h.planFor?_eq_none hd hskipped (h.isTree.get?_of_mem (mem_children.1 hx))
  rw [h.root] at hnone ⊢
  simp only [Move.plan, hread', planEntries, hnone, List.mergeSort_nil]

end Finished

/-- A run after one that has ended well and skipped nothing ends well too. It moves, skips, scans and
updates nothing, tells nothing and leaves the disk as it is. -/
theorem organize_fixpoint {o : RunSetup} {root : Path} {d : Disk} (hd : d.IsTree) {home : Location}
    {top : Entry} (hroot : d.locate true root = .ok (home, top)) (hfree : d.LinkFree home)
    {report : Report} (h : (organize o root d).result = .ok report)
    (hskipped : report.skipped = []) :
    organize o root (organize o root d).disk =
      ⟨.ok { root := report.root }, [], (organize o root d).disk⟩ := by
  have hfinished := finished_of_organize hd hroot hfree h
  have hresolved := resolvedRoot_of_keeps hd hfinished.isTree hfinished.keeps (moves_of_organize h).1
  have hphases : runPhases o root (organize o root d).disk =
      ⟨.ok { root := report.root }, [], (organize o root d).disk⟩ := by
    simp only [runPhases, hresolved, hfinished.plan_eq_nil hd hskipped]
    rfl
  generalize (organize o root d).disk = last at hphases ⊢
  simp only [organize, hphases]

/-- A run on what the run over the project leaves does nothing. -/
theorem organize_fixpoint_of_styledDisk : ∃ report,
    (organize {} ⟨"/site"⟩ styledDisk).result = .ok report ∧ report.moved = styledMoved ∧
    organize {} ⟨"/site"⟩ (organize {} ⟨"/site"⟩ styledDisk).disk =
      ⟨.ok { root := report.root }, [], (organize {} ⟨"/site"⟩ styledDisk).disk⟩ := by
  obtain ⟨report, hrun, hmoved, hskipped, -⟩ := organize_styledDisk
  have hroot : styledDisk.locate true ⟨"/site"⟩ = .ok (["site"], .dir 0o755) := rfl
  have hfree : styledDisk.LinkFree ["site"] := linkFree_of_entries (by decide +kernel) _
  exact ⟨report, hrun, hmoved, organize_fixpoint (by decide +kernel) hroot hfree hrun hskipped⟩

end SiteFolders
