import SiteFolders.Run
import SiteFolders.Proofs.Move.Kept

/-!
# Runs that end with an error

Whatever the move phase does, it leaves everything alone but regular files directly in the root, so
the root can still be listed; and under the policy that skips text files, updating them never ends
the run. So a run ends with an error before anything has changed, or in the move phase because a
folder cannot be made.
-/

namespace SiteFolders

open Disk Move

/-! ## Folders -/

/-- `d'` is `d` with new folders of categories in the directory. -/
structure OnlyFolders (home : Location) (d d' : Disk) : Prop where
  grown : d.Grown d'
  folder : ∀ loc e, d.get? loc = none → d'.get? loc = some e →
    ∃ c : Category, loc = c.folder :: home

namespace OnlyFolders

variable {home : Location} {d d' : Disk}

theorem refl (home : Location) (d : Disk) : OnlyFolders home d d :=
  ⟨.refl d, fun loc e hnone he => by simp [hnone] at he⟩

theorem trans {d'' : Disk} (h : OnlyFolders home d d') (h' : OnlyFolders home d' d'') :
    OnlyFolders home d d'' := by
  refine ⟨h.grown.trans h'.grown, fun loc e hnone he => ?_⟩
  cases hmid : d'.get? loc with
  | none => exact h'.folder loc e hmid he
  | some e' => exact h.folder loc e' hnone hmid

theorem isHome (h : OnlyFolders home d d') (hhome : IsHome d home) : IsHome d' home :=
  hhome.keeps h.grown.keeps

end OnlyFolders

theorem onlyFolders_madeFor {home : Location} {d : Disk} (hd : d.IsTree) (hhome : IsHome d home)
    (p : Planned) : OnlyFolders home d (madeFor (Path.ofLocation home) p d) := by
  refine ⟨grown_madeFor _ p d, fun loc e hnone he => ?_⟩
  rcases (hhome.rootAt hd).of_madeFor he with hold | ⟨-, hloc, -⟩
  · rw [hnone] at hold
    simp at hold
  · exact ⟨p.category, hloc⟩

/-- As long as no move is recorded, all that happens is that folders are made. -/
theorem onlyFolders_execute {home : Location} : ∀ {plans : List Planned} {d last : Disk}
    {r : Move.Result}, d.IsTree → IsHome d home → (∀ p ∈ plans, IsName p.fileName) →
    Move.execute (Path.ofLocation home) plans d = (.ok r, last) → r.moved = [] →
    OnlyFolders home d last
  | [], d, last, r, _, _, _, h, _ => by
    rcases Prod.mk.inj h with ⟨-, rfl⟩
    exact .refl home d
  | p :: rest, d, last, r, hd, hhome, hplans, h, hnone => by
    have hmade := onlyFolders_madeFor hd hhome p
    obtain ⟨step, mid, r', hone, hrest, rfl⟩ := execute_cons_eq_ok_iff.1 h
    -- a step that records no move makes at most the folder
    have hmid : mid = madeFor (Path.ofLocation home) p d ∧ r'.moved = [] := by
      rcases moveOne_cases hd (Path.ofLocation home) (hplans p (by simp)) with ⟨e, heq⟩ |
        ⟨step', hstep, heq⟩ | ⟨k, target, found, old, new, after, -, -, -, heq⟩
      · simp [hone] at heq
      · obtain ⟨hsame, rfl⟩ := Prod.mk.inj (hone.symm.trans heq)
        obtain rfl := Except.ok.inj hsame
        refine ⟨rfl, ?_⟩
        cases step with
        | moved file => exact absurd rfl (hstep file)
        | skipped | stayed => exact hnone
      · obtain ⟨hsame, -⟩ := Prod.mk.inj (hone.symm.trans heq)
        obtain rfl := Except.ok.inj hsame
        simp [Move.Result.add] at hnone
    obtain ⟨rfl, hnone'⟩ := hmid
    exact hmade.trans (onlyFolders_execute (hmade.grown.isTree hd) (hmade.isHome hhome)
      (fun q hq => hplans q (List.mem_cons_of_mem _ hq)) hrest hnone')

/-! ## What cannot fail -/

/-- A directory that can be read can be listed. -/
theorem list_eq_ok {d : Disk} (hd : d.IsTree) {home : Location} (hhome : IsHome d home)
    (lister : Lister) (skipped : List String) {entries : List (String × Entry)}
    (h : d.readDir (Path.ofLocation home) = .ok entries) :
    ∃ listing, lister.list skipped d (Path.ofLocation home) = .ok listing := by
  rcases hhome.get? with ⟨mode, hmode⟩
  cases lister with
  | walk =>
    have hlstat : d.lstat (Path.ofLocation home) = .ok (.dir mode) := by
      exact lstat_eq_ok_iff.2 ⟨home, hhome.locate hd false hmode⟩
    exact ⟨_, by simp [Lister.list, Listing.walk, hlstat, h]; rfl⟩
  | glob => exact ⟨_, by simp [Lister.list, Listing.glob, h]; rfl⟩

/-- Under the policy that skips files an update does not end early. -/
theorem updateEach_eq_ok {o : Reference.Options} (ho : o.onFailure = .skip)
    (moved : List Reference.Moved) : ∀ (files : List Path) (d : Disk),
    ∃ summary, (Reference.updateEach o moved files d).result = .ok summary
  | [], d => ⟨_, rfl⟩
  | p :: rest, d => by
    have ih := updateEach_eq_ok ho moved rest
    simp only [Reference.updateEach, ho]
    split
    · next after _ =>
      rcases ih after with ⟨summary, hsummary⟩
      exact ⟨_, by rw [Reference.Update.after, hsummary]; rfl⟩
    · next after _ =>
      rcases ih after with ⟨summary, hsummary⟩
      exact ⟨_, by rw [Reference.Update.after, hsummary]; rfl⟩
    · rcases ih d with ⟨summary, hsummary⟩
      exact ⟨_, by rw [Reference.Update.after, hsummary]; rfl⟩

/-! ## Errors of a run -/

/-- A move phase that ends early has gone through the plans before the one whose folder cannot be
made. -/
theorem execute_eq_error {root : Path} {e : RunError} : ∀ {plans : List Planned} {d after : Disk},
    d.IsTree → (∀ p ∈ plans, IsName p.fileName) → Move.execute root plans d = (.error e, after) →
    ∃ done p rest r here cause, plans = done ++ p :: rest ∧
      Move.execute root done d = (.ok r, here) ∧
      e = .folderNotMade (root.join p.category.folder) cause ∧ after = madeFor root p here
  | [], d, after, _, _, h => by simp [Move.execute] at h
  | p :: rest, d, after, hd, hplans, h => by
    have hp := hplans p (by simp)
    have htree := isTree_moveOne hd root hp
    rcases execute_cons_eq_error_iff.1 h with hone | ⟨step, here, hone, hrest⟩
    · rcases moveOne_cases hd root hp with ⟨cause, heq⟩ | ⟨step, -, heq⟩ |
        ⟨k, target, found, old, new, x, -, -, -, heq⟩
      · obtain ⟨he, rfl⟩ := Prod.mk.inj (hone.symm.trans heq)
        exact ⟨[], p, rest, {}, d, cause, rfl, rfl, Except.error.inj he, rfl⟩
      · simp [hone] at heq
      · simp [hone] at heq
    · rw [hone] at htree
      obtain ⟨done, q, rest', r, mid, cause, rfl, hdone, he, hafter⟩ :=
        execute_eq_error htree (fun q hq => hplans q (List.mem_cons_of_mem _ hq)) hrest
      exact ⟨p :: done, q, rest', r.add step, mid, cause, rfl,
        execute_cons_eq_ok_iff.2 ⟨step, here, r, hone, hdone, rfl⟩, he, hafter⟩

theorem organize_disk (o : RunSetup) (root : Path) (d : Disk) :
    (organize o root d).disk = (runPhases o root d).disk := by
  unfold organize
  dsimp only
  split <;> rfl

theorem organize_result (o : RunSetup) (root : Path) (d : Disk) :
    (organize o root d).result = (runPhases o root d).result := by
  unfold organize
  dsimp only
  split <;> rfl

/-- What follows the moves is nothing or an update of what is listed then. -/
theorem afterMoves_disk (o : RunSetup) (root : Path) (moves : Move.Result) (d : Disk) :
    (afterMoves o root moves d).disk = d ∨ ∃ listing, o.list d root = .ok listing ∧
      (afterMoves o root moves d).disk =
        (Reference.updateFiles o.references moves.moved listing.files d).disk := by
  unfold afterMoves
  dsimp only
  split
  · exact Or.inl rfl
  · cases hlisting : o.list d root with
    | error e => exact Or.inl rfl
    | ok listing =>
      refine Or.inr ⟨listing, rfl, ?_⟩
      simp only [updateReferences]
      split <;> rfl

theorem home_of_resolvedRoot {d : Disk} (hd : d.IsTree) {root canonical : Path}
    (h : resolvedRoot d root = .ok canonical) :
    ∃ home top, d.locate true root = .ok (home, top) ∧ canonical = Path.ofLocation home ∧
      IsHome d home := by
  unfold resolvedRoot at h
  split at h
  · simp at h
  · next found hfound =>
    split at h
    · next hdir =>
      obtain rfl := Except.ok.inj h
      rcases canonical_eq_ok hd hfound hdir with ⟨home, mode, hloc, rfl, hmode, hopen, hcheck⟩
      exact ⟨home, _, hloc, rfl, holdsDir_iff.2 ⟨mode, hmode⟩, hopen, hcheck⟩
    · simp at h

/-- The directory that the root leads to is the one it was found at. -/
theorem isHome_of_resolvedRoot {d : Disk} (hd : d.IsTree) {root canonical : Path} {home : Location}
    {top : Entry} (hroot : d.locate true root = .ok (home, top))
    (h : resolvedRoot d root = .ok canonical) :
    canonical = Path.ofLocation home ∧ IsHome d home := by
  obtain ⟨home', top', hroot', rfl, hhome⟩ := home_of_resolvedRoot hd h
  obtain ⟨rfl, -⟩ := Prod.mk.inj (Except.ok.inj (hroot.symm.trans hroot'))
  exact ⟨rfl, hhome⟩

/-- A root that leads nowhere ends the run before it has changed anything. -/
theorem runPhases_of_missing {d : Disk} {root : Path} {e : DiskError}
    (h : d.locate true root = .error e) (o : RunSetup) : (runPhases o root d).disk = d := by
  have hresolved : resolvedRoot d root = .error (.rootMissing root e) := by
    simp [resolvedRoot, canonical, h]
  simp [runPhases, hresolved]

theorem resolvedRoot_ne_folderNotMade {d : Disk} {root folder : Path} {cause : DiskError} :
    resolvedRoot d root ≠ .error (.folderNotMade folder cause) := by
  unfold resolvedRoot
  split
  · simp
  · split <;> simp

theorem plan_ne_folderNotMade {d : Disk} {root folder : Path} {cause : DiskError}
    {classifier : Classifier} {exclusion : Exclusion} :
    Move.plan d root classifier exclusion ≠ .error (.folderNotMade folder cause) := by
  unfold Move.plan
  split <;> simp

/-- Nothing that follows the move phase ends a run that skips text files. -/
theorem afterMoves_ne_error {d : Disk} (hd : d.IsTree) {home : Location} (hhome : IsHome d home)
    {o : RunSetup} {lister : Lister} {skipped : List String} (hlist : o.list = lister.list skipped)
    (hskip : o.references.onFailure = .skip) {entries : List (String × Entry)}
    (hread : d.readDir (Path.ofLocation home) = .ok entries) (moves : Move.Result) (e : RunError) :
    (afterMoves o (Path.ofLocation home) moves d).result ≠ .error e := by
  rcases list_eq_ok hd hhome lister skipped hread with ⟨listing, hlisting⟩
  obtain ⟨summary, hsummary⟩ := updateEach_eq_ok hskip moves.moved
    (listing.files.filter Path.isText) d
  simp only [afterMoves, hlist, hlisting, updateReferences, Reference.updateFiles, hsummary]
  split <;> simp

/-- What a run leaves whose move phase stopped at a folder: the plans before went through with a
result, no bytes are lost, only regular files of the root have moved, and none if the result
records none. -/
structure Stopped (home : Location) (d after : Disk) (done : List Planned) (r : Move.Result) :
    Prop where
  phase : ∃ here, Move.execute (Path.ofLocation home) done d = (.ok r, here) ∧
    OnlyFolders home here after
  contents : after.contents = d.contents
  kept : Kept home d after
  unmoved : r.moved = [] → OnlyFolders home d after

/-- A run that skips text files which cannot be updated ends with an error before anything has
changed, or because a folder cannot be made for a planned file. Then the plans before this one have
gone through, and nothing else has happened. -/
theorem organize_error_cases {d : Disk} (hd : d.IsTree) {o : RunSetup} {lister : Lister}
    {skipped : List String} (hlist : o.list = lister.list skipped)
    (hskip : o.references.onFailure = .skip) {root : Path} {e : RunError}
    (h : (organize o root d).result = .error e) :
    ((∀ folder cause, e ≠ .folderNotMade folder cause) ∧ (organize o root d).disk = d) ∨
    ∃ home done p rest r cause, resolvedRoot d root = .ok (Path.ofLocation home) ∧
      Move.plan d (Path.ofLocation home) o.classifier o.exclusion = .ok (done ++ p :: rest) ∧
      e = .folderNotMade ((Path.ofLocation home).join p.category.folder) cause ∧
      Stopped home d (organize o root d).disk done r := by
  rw [organize_result] at h
  rw [organize_disk]
  simp only [runPhases] at h ⊢
  cases hroot : resolvedRoot d root with
  | error e' =>
    left
    simp only [hroot, Except.error.injEq] at h ⊢
    refine ⟨?_, trivial⟩
    rintro folder cause rfl
    exact resolvedRoot_ne_folderNotMade (h ▸ hroot)
  | ok canonical =>
    rcases home_of_resolvedRoot hd hroot with ⟨home, -, -, rfl, hhome⟩
    simp only [hroot] at h ⊢
    cases hplan : Move.plan d (Path.ofLocation home) o.classifier o.exclusion with
    | error e' =>
      left
      simp only [hplan, Except.error.injEq] at h ⊢
      refine ⟨?_, trivial⟩
      rintro folder cause rfl
      exact plan_ne_folderNotMade (h ▸ hplan)
    | ok plans =>
      rcases plan_eq_ok hd hhome hplan with ⟨hplanned, -, entries, hread⟩
      have hnames : ∀ p ∈ plans, IsName p.fileName := fun p hp => (hplanned p hp).isName
      have hkept := Kept.execute hd hhome (.refl hd) hplanned
      simp only [hplan] at h ⊢
      cases hexec : Move.execute (Path.ofLocation home) plans d with
      | mk result after =>
        rw [hexec] at hkept
        cases result with
        | error e' =>
          right
          simp only [hexec, Except.error.injEq] at h ⊢
          subst h
          obtain ⟨done, p, rest, r, here, cause, rfl, hdone, he, hafter⟩ :=
            execute_eq_error hd hnames hexec
          -- the plans before the one that fails have gone through, and only a folder may be new
          have hhere := Kept.execute hd hhome (.refl hd)
            fun q hq => hplanned q (List.mem_append_left _ hq)
          rw [hdone] at hhere
          have hfolder := onlyFolders_madeFor hhere.isTree (hhere.isHome hhome) p
          rw [← hafter] at hfolder
          refine ⟨home, done, p, rest, r, cause, rfl, hplan, he, ⟨here, hdone, hfolder⟩,
            hkept.contents, hkept, fun hnone => ?_⟩
          exact (onlyFolders_execute hd hhome (fun q hq => hnames q (List.mem_append_left _ hq))
            hdone hnone).trans hfolder
        | ok moves =>
          simp only [hexec] at h
          exact absurd h (afterMoves_ne_error hkept.isTree (hkept.isHome hhome) hlist hskip
            (hkept.readDir hd hhome hread) moves e)

/-! ## A folder whose name is taken -/

/-- A disk where a file has the name of a folder, and a file for another folder comes first. -/
def blockedDisk : Disk where
  entries := [(["site"], .dir 0o755), (["a.css", "site"], .file 0o644 "body".toUTF8),
    (["b.js", "site"], .file 0o644 "let".toUTF8), (["js", "site"], .file 0o644 "x".toUTF8)]

/-- The plans for the disk. -/
def blockedPlans : List Planned :=
  [⟨⟨"/site/a.css"⟩, "a.css", .css⟩, ⟨⟨"/site/b.js"⟩, "b.js", .js⟩, ⟨⟨"/site/js"⟩, "js", .files⟩]

theorem isTree_blockedDisk : blockedDisk.IsTree := by decide +kernel

theorem plan_blockedDisk : Move.plan blockedDisk ⟨"/site"⟩ .standard {} = .ok blockedPlans := by
  have hloc : blockedDisk.locate true ⟨"/site"⟩ = .ok (["site"], .dir 0o755) := rfl
  have hread : blockedDisk.readDir ⟨"/site"⟩ = .ok [("a.css", .file 0o644 "body".toUTF8),
      ("b.js", .file 0o644 "let".toUTF8), ("js", .file 0o644 "x".toUTF8)] :=
    readDir_of_sorted hloc rfl rfl (by decide +kernel)
  have hplans : ([("a.css", .file 0o644 "body".toUTF8), ("b.js", .file 0o644 "let".toUTF8),
      ("js", .file 0o644 "x".toUTF8)] : List (String × Entry)).filterMap
        (planFor? ⟨"/site"⟩ .standard {}) = blockedPlans := by decide +kernel
  simp only [Move.plan, hread, planEntries, hplans]
  rw [List.mergeSort_of_pairwise (by decide +kernel)]

theorem runPhases_blockedDisk :
    (∃ e, (runPhases {} ⟨"/site"⟩ blockedDisk).result = .error e) ∧
    (runPhases {} ⟨"/site"⟩ blockedDisk).disk =
      (Move.execute ⟨"/site"⟩ blockedPlans blockedDisk).2 := by
  have hroot : resolvedRoot blockedDisk ⟨"/site"⟩ = .ok ⟨"/site"⟩ := rfl
  have hfails : (Move.execute ⟨"/site"⟩ blockedPlans blockedDisk).1.toOption.isNone = true := by
    decide +kernel
  simp only [runPhases, hroot, plan_blockedDisk]
  split
  · next e after h => exact ⟨⟨e, rfl⟩, by rw [h]⟩
  · next r after h => simp [h] at hfails

/-- A run can end with an error after a file has moved. -/
theorem organize_error_after_move : blockedDisk.IsTree ∧
    ({} : RunSetup).list = Lister.walk.list standardSkippedDirs ∧
    ({} : RunSetup).references.onFailure = .skip ∧
    (∃ e, (organize {} ⟨"/site"⟩ blockedDisk).result = .error e) ∧
    (blockedDisk.get? ["a.css", "site"]).any Entry.isFile = true ∧
    ((organize {} ⟨"/site"⟩ blockedDisk).disk.get? ["a.css", "site"]).isNone = true ∧
    ((organize {} ⟨"/site"⟩ blockedDisk).disk.get? ["a.css", "css", "site"]).any Entry.isFile =
      true := by
  rw [organize_result, organize_disk, runPhases_blockedDisk.2]
  exact ⟨isTree_blockedDisk, rfl, rfl, runPhases_blockedDisk.1, by decide +kernel,
    by decide +kernel, by decide +kernel⟩

theorem organize_error_cases_of_taken_folder : blockedDisk.IsTree ∧
    ∃ e, (organize {} ⟨"/site"⟩ blockedDisk).result = .error e ∧
    ((∀ folder cause, e ≠ .folderNotMade folder cause) ∧
        (organize {} ⟨"/site"⟩ blockedDisk).disk = blockedDisk ∨
      ∃ home done p rest r cause,
        resolvedRoot blockedDisk ⟨"/site"⟩ = .ok (Path.ofLocation home) ∧
        Move.plan blockedDisk (Path.ofLocation home) .standard {} = .ok (done ++ p :: rest) ∧
        e = .folderNotMade ((Path.ofLocation home).join p.category.folder) cause ∧
        Stopped home blockedDisk (organize {} ⟨"/site"⟩ blockedDisk).disk done r) := by
  rcases runPhases_blockedDisk.1 with ⟨e, he⟩
  rw [← organize_result] at he
  have hlist : ({} : RunSetup).list = Lister.walk.list standardSkippedDirs := rfl
  exact ⟨isTree_blockedDisk, e, he, organize_error_cases isTree_blockedDisk hlist rfl he⟩

end SiteFolders
