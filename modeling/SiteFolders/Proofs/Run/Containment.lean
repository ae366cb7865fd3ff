import SiteFolders.Proofs.Listing.Files
import SiteFolders.Proofs.Move.Containment
import SiteFolders.Proofs.Reference.Updates
import SiteFolders.Proofs.Run.Atomicity

/-!
# What a run does outside its root

Both listings name files below the root that are reached without a link, so an update writes nothing
outside (`afterMoves_outside`). The move phase does not ask whether a folder is a link. So the one
thing that a run can do outside the root is to bring planned files to where linked folders lead
(`organize_contained`).
-/

namespace SiteFolders

open Disk Move

/-! ## After the moves -/

/-- What follows the move phase changes nothing but the bytes of files, and nothing at all outside
the root. -/
theorem afterMoves_outside {d : Disk} (hd : d.IsTree) {home : Location} (hhome : IsHome d home)
    {o : RunSetup} {lister : Lister} {skipped : List String} (hlist : o.list = lister.list skipped)
    (moves : Move.Result) :
    d.SameTree (afterMoves o (Path.ofLocation home) moves d).disk ∧ ∀ loc, ¬ home <:+ loc →
      (afterMoves o (Path.ofLocation home) moves d).disk.get? loc = d.get? loc := by
  rcases afterMoves_disk o (Path.ofLocation home) moves d with hsame | ⟨listing, hlisting, hdisk⟩
  · rw [hsame]
    exact ⟨.refl d, fun _ _ => rfl⟩
  · rw [hlist] at hlisting
    rcases hhome.get? with ⟨mode, hmode⟩
    have hlists := Listing.lists_of_list hd lister skipped hmode hlisting
    obtain ⟨done, hdone, heach⟩ := Reference.exists_eachUpdated o.references moves.moved
      ((hlists.unaliased hd).filter Path.isText)
    rw [hdisk, Reference.updateFiles]
    refine ⟨heach.sameTree, fun loc hloc => heach.kept loc fun p hp _ hplace => hloc ?_⟩
    exact (hlists.eq_ofLocation hd (List.mem_filter.1 (hdone.subset hp)).1 hplace).2

/-! ## The whole run -/

/-- What a run leaves at a place outside its root: what was there, or a file from the root itself that
a linked folder has led there. -/
structure ContainedAt (d last : Disk) (home loc : Location) : Prop where
  stays : ∀ e, d.get? loc = some e → last.get? loc = some e
  comes : ∀ e, d.get? loc = none → last.get? loc = some e →
    ∃ (n : String) (k : Nat) (c : Category) (dir : Location), loc = candidate n k :: dir ∧
      d.get? (n :: home) = some e ∧ e.isFile = true ∧ LinkedFolder d last home c dir

theorem ContainedAt.refl (d : Disk) (home loc : Location) : ContainedAt d d home loc :=
  ⟨fun _ he => he, fun e hnone he => by simp [hnone] at he⟩

theorem ContainedAt.of_same {d after last : Disk} {home loc : Location}
    (h : ContainedAt d after home loc) (hsame : after.SameTree last)
    (hloc : last.get? loc = after.get? loc) : ContainedAt d last home loc := by
  constructor
  · intro e he
    rw [hloc]
    exact h.stays e he
  · intro e hnone he
    rw [hloc] at he
    rcases h.comes e hnone he with ⟨n, k, c, dir, heq, hfile, hisFile, hlinked⟩
    exact ⟨n, k, c, dir, heq, hfile, hisFile, hlinked.keeps hsame.keeps⟩

/-- What the move phase leaves outside the root. -/
theorem containedAt_of_brought {d after : Disk} {home loc : Location} (hbrought : Brought home d after)
    (hkept : Kept home d after) (hloc : ¬ home <:+ loc) : ContainedAt d after home loc := by
  have hne : ∀ n, loc ≠ n :: home := by
    rintro n rfl
    exact hloc (List.suffix_cons n home)
  constructor
  · intro e he
    exact hkept.same loc e he fun _ => hne
  · intro e hnone he
    rcases hbrought.origin loc e he with hbefore | ⟨c, heq, -⟩ |
      ⟨n, k, c, dir, heq, hfile, hisFile, hdir⟩
    · rw [hnone] at hbefore
      simp at hbefore
    · exact absurd heq (hne c.folder)
    · refine ⟨n, k, c, dir, heq, hfile, hisFile, ?_⟩
      rcases hdir with rfl | hlinked
      · exact absurd ⟨[candidate n k, c.folder], heq.symm⟩ hloc
      · exact hlinked

/-- A run whose root leads nowhere changes nothing. Any other one, whether it succeeds or fails, changes
and removes nothing outside its root, and what it creates there are regular files from the root
itself, in directories to which folders of the root lead that are links. So it leaves everything outside
as it is, if no folder of a category is a link. -/
theorem organize_contained {d : Disk} (hd : d.IsTree) {o : RunSetup} {lister : Lister}
    {skipped : List String} (hlist : o.list = lister.list skipped) (root : Path) :
    (∀ e, d.locate true root = .error e → (organize o root d).disk = d) ∧
    ∀ home top, d.locate true root = .ok (home, top) → ∀ loc, ¬ home <:+ loc →
      ContainedAt d (organize o root d).disk home loc ∧
      ((∀ (c : Category) target, d.get? (c.folder :: home) ≠ some (.link target)) →
        (organize o root d).disk.get? loc = d.get? loc) := by
  rw [organize_disk]
  constructor
  · exact fun e he => runPhases_of_missing he o
  intro home top hroot loc hloc
  -- what the moves have done outside, the updates leave, as they rewrite listed files only
  have hcontained : ContainedAt d (runPhases o root d).disk home loc := by
    unfold runPhases
    cases hresolved : resolvedRoot d root with
    | error e => exact .refl d home loc
    | ok canonical =>
      obtain ⟨rfl, hhome⟩ := isHome_of_resolvedRoot hd hroot hresolved
      cases hplan : Move.plan d (Path.ofLocation home) o.classifier o.exclusion with
      | error e =>
        simp only [hplan]
        exact .refl d home loc
      | ok plans =>
        rcases plan_eq_ok hd hhome hplan with ⟨hplanned, hnodup, -⟩
        have hkept := Kept.execute hd hhome (.refl hd) hplanned
        have hbrought := brought_execute hhome ⟨.refl home hd, hplanned, hnodup, fun p _ => rfl⟩
        simp only [hplan]
        cases hexec : Move.execute (Path.ofLocation home) plans d with
        | mk result after =>
          rw [hexec] at hkept hbrought
          have hafter := containedAt_of_brought hbrought hkept hloc
          cases result with
          | error e => exact hafter
          | ok moves =>
            rcases afterMoves_outside hkept.isTree (hkept.isHome hhome) hlist moves with
              ⟨hsame, houtside⟩
            exact hafter.of_same hsame (houtside loc hloc)
  -- files come up outside only through a folder that is a link
  refine ⟨hcontained, fun hfree => ?_⟩
  cases hbefore : d.get? loc with
  | some e => exact hcontained.stays e hbefore
  | none =>
    cases hlast : (runPhases o root d).disk.get? loc with
    | none => rfl
    | some e =>
      rcases hcontained.comes e hbefore hlast with ⟨-, -, c, -, -, -, -, ⟨target, hlink⟩, -⟩
      exact absurd hlink (hfree c target)

/-- A project whose folder for stylesheets is a link to a directory beside it. -/
def leakyDisk : Disk where
  entries := [(["out"], .dir 0o755), (["note.txt", "out"], .file 0o644 "kept".toUTF8),
    (["site"], .dir 0o755), (["a.css", "site"], .file 0o644 "body".toUTF8),
    (["css", "site"], .link "../out")]

/-- What is beside the project stays, and what comes there comes through the link. -/
theorem organize_contained_of_leakyDisk :
    (organize {} ⟨"/site"⟩ leakyDisk).disk.get? ["note.txt", "out"] =
      some (.file 0o644 "kept".toUTF8) ∧
    ∀ loc, ¬ ["site"] <:+ loc →
      ContainedAt leakyDisk (organize {} ⟨"/site"⟩ leakyDisk).disk ["site"] loc := by
  have hd : leakyDisk.IsTree := by decide +kernel
  have hlist : ({} : RunSetup).list = Lister.walk.list standardSkippedDirs := rfl
  have hroot : leakyDisk.locate true ⟨"/site"⟩ = .ok (["site"], .dir 0o755) := rfl
  have hcontained := (organize_contained hd hlist ⟨"/site"⟩).2 _ _ hroot
  constructor
  · exact (hcontained ["note.txt", "out"] (by decide)).1.stays _ rfl
  · intro loc hloc
    exact (hcontained loc hloc).1

theorem plan_leakyDisk : Move.plan leakyDisk ⟨"/site"⟩ .standard {} =
    .ok [⟨⟨"/site/a.css"⟩, "a.css", .css⟩] := by
  have hloc : leakyDisk.locate true ⟨"/site"⟩ = .ok (["site"], .dir 0o755) := rfl
  have hread : leakyDisk.readDir ⟨"/site"⟩ =
      .ok [("a.css", .file 0o644 "body".toUTF8), ("css", .link "../out")] :=
    readDir_of_sorted hloc rfl rfl (by decide +kernel)
  have hplans : ([("a.css", .file 0o644 "body".toUTF8), ("css", .link "../out")] :
      List (String × Entry)).filterMap (planFor? ⟨"/site"⟩ .standard {}) =
        [⟨⟨"/site/a.css"⟩, "a.css", .css⟩] := by
    decide +kernel
  simp only [Move.plan, hread, planEntries, hplans, List.mergeSort_singleton]

/-- A run creates a file outside its root. -/
theorem organize_leaves_root : leakyDisk.IsTree ∧
    ({} : RunSetup).list = Lister.walk.list standardSkippedDirs ∧
    leakyDisk.locate true ⟨"/site"⟩ = .ok (["site"], .dir 0o755) ∧
    ¬ ["site"] <:+ ["a.css", "out"] ∧ leakyDisk.get? ["a.css", "out"] = none ∧
    ((organize {} ⟨"/site"⟩ leakyDisk).disk.get? ["a.css", "out"]).any Entry.isFile = true := by
  have hd : leakyDisk.IsTree := by decide +kernel
  have hlist : ({} : RunSetup).list = Lister.walk.list standardSkippedDirs := rfl
  have hloc : leakyDisk.locate true ⟨"/site"⟩ = .ok (["site"], .dir 0o755) := rfl
  have hresolved : resolvedRoot leakyDisk ⟨"/site"⟩ = .ok ⟨"/site"⟩ := rfl
  have hpath : Path.ofLocation ["site"] = ⟨"/site"⟩ := by decide +kernel
  refine ⟨hd, hlist, hloc, by decide, rfl, ?_⟩
  obtain ⟨-, hhome⟩ := isHome_of_resolvedRoot hd hloc hresolved
  have hplanned := (plan_eq_ok hd hhome (hpath ▸ plan_leakyDisk)).1
  have hkept := Kept.execute hd hhome (.refl hd) hplanned
  have hmoved : ((Move.execute ⟨"/site"⟩ [⟨⟨"/site/a.css"⟩, "a.css", .css⟩] leakyDisk).2.get?
      ["a.css", "out"]).any Entry.isFile = true := by
    decide +kernel
  rw [organize_disk]
  simp only [runPhases, hresolved, plan_leakyDisk]
  rw [hpath] at hkept
  cases hexec : Move.execute ⟨"/site"⟩ [⟨⟨"/site/a.css"⟩, "a.css", .css⟩] leakyDisk with
  | mk result after =>
    rw [hexec] at hkept hmoved
    cases result with
    | error e => exact hmoved
    | ok moves =>
      -- the update leaves alone what is outside
      have houtside := (afterMoves_outside hkept.isTree (hkept.isHome hhome) hlist moves).2
        ["a.css", "out"] (by decide)
      rw [hpath] at houtside
      rw [houtside]
      exact hmoved

end SiteFolders
