import SiteFolders.Proofs.Run.RoundTrip

/-!
# What a run tells

How a run ends decides what it has told (`Told`). A run that moves nothing tells at most that files
were skipped. One that moves files tells of its updates between a start and a finish, text by text
in the order of the listing, and then of its success. One that ends early tells why, last of all,
and closes the updates that it has begun (`organize_notices`).

This holds on any disk and for any way to list files, as the notices follow from the results of the
phases alone.
-/

namespace SiteFolders

open Move

/-! ## Warnings -/

/-- What is said of files that did not move. -/
def skipMessage (line : String) : String := s!"Some files were skipped (missing or locked): {line}"

/-- What is said of files whose references could not be updated. -/
def failureMessage (line : String) : String := s!"References could not be updated in: {line}"

/-- A warning about files is given once if there are any, and names them all. -/
inductive Warned (message : String → String) : List Skip → List Notice → Prop
  | silent : Warned message [] []
  | told {skips : List Skip} (h : skips ≠ []) :
      Warned message skips [.warning (message (skipLine skips))]

theorem warned_skipNotices (skips : List Skip) : Warned skipMessage skips (skipNotices skips) := by
  unfold skipNotices
  split
  · next h => exact List.isEmpty_iff.1 h ▸ .silent
  · next h => exact .told fun hnil => h (List.isEmpty_iff.2 hnil)

theorem warned_failureNotices (skips : List Skip) :
    Warned failureMessage skips (failureNotices skips) := by
  unfold failureNotices
  split
  · next h => exact List.isEmpty_iff.1 h ▸ .silent
  · next h => exact .told fun hnil => h (List.isEmpty_iff.2 hnil)

theorem skipMessage_ne_failureMessage (line line' : String) :
    skipMessage line ≠ failureMessage line' := by
  unfold skipMessage failureMessage
  intro h
  have htext := congrArg String.toList h
  simp [toString] at htext

namespace Warned

variable {message : String → String} {skips : List Skip} {warned : List Notice}
  (h : Warned message skips warned)
include h

theorem exists_of_mem {n : Notice} (hn : n ∈ warned) : ∃ line, n = .warning (message line) := by
  cases h with
  | silent => simp at hn
  | told => exact ⟨_, List.mem_singleton.1 hn⟩

theorem notMem {n : Notice} (hn : ∀ line, n ≠ .warning (message line)) : n ∉ warned := by
  intro hmem
  obtain ⟨line, rfl⟩ := h.exists_of_mem hmem
  exact hn line rfl

theorem exists_mem_iff : (∃ line, .warning (message line) ∈ warned) ↔ skips ≠ [] := by
  cases h with
  | silent => simp
  | told hne => exact ⟨fun _ => hne, fun _ => ⟨_, List.mem_singleton_self _⟩⟩

theorem exists_mem_append_iff {rest : List Notice} (hrest : ∀ line, .warning (message line) ∉ rest) :
    (∃ line, .warning (message line) ∈ warned ++ rest) ↔ skips ≠ [] := by
  rw [← h.exists_mem_iff]
  simp [hrest]

end Warned

/-! ## Updates -/

/-- What is told of an update of so many texts that has come so far. -/
def updateNotices (total : Nat) (scanned : List Path) : List Notice :=
  [.info s!"Updating references in {total} text file(s)...", .started total] ++
    scanned.map .scanned ++ [.finished]

/-- An update that ends well has told of all files, and one that ends early of those before the file
that it stopped at. -/
theorem progress_updateEach (o : Reference.Options) (moved : List Reference.Moved) :
    ∀ (files : List Path) (d : Disk),
      (∃ summary, (Reference.updateEach o moved files d).result = .ok summary ∧
        summary.scanned = files.length ∧ (Reference.updateEach o moved files d).progress = files) ∨
      ∃ e f later, (Reference.updateEach o moved files d).result = .error e ∧
        files = (Reference.updateEach o moved files d).progress ++ f :: later
  | [], d => Or.inl ⟨{}, rfl, rfl, rfl⟩
  | p :: rest, d => by
    -- unless the update stops at this file, it has told of it, and then of the others by induction
    have hafter : ∀ (change : Reference.Summary → Reference.Summary) (after : Disk),
        (∃ summary, ((Reference.updateEach o moved rest after).after p change).result = .ok summary ∧
          summary.scanned = (p :: rest).length ∧
          ((Reference.updateEach o moved rest after).after p change).progress = p :: rest) ∨
        ∃ e f later,
          ((Reference.updateEach o moved rest after).after p change).result = .error e ∧
          p :: rest = ((Reference.updateEach o moved rest after).after p change).progress ++
            f :: later := by
      intro change after
      rcases progress_updateEach o moved rest after with
        ⟨summary, hresult, hscanned, hprogress⟩ | ⟨e, f, later, hresult, hprogress⟩
      · refine Or.inl ⟨_, by rw [Reference.Update.after, hresult]; rfl, ?_, ?_⟩
        · simp [hscanned]
        · simp [Reference.Update.after, hprogress]
      · refine Or.inr ⟨e, f, later, by rw [Reference.Update.after, hresult]; rfl, ?_⟩
        exact congrArg (p :: ·) hprogress
    simp only [Reference.updateEach]
    split
    · exact hafter _ _
    · exact hafter _ _
    · split
      · exact hafter _ _
      · exact Or.inr ⟨_, p, rest, rfl, rfl⟩

/-! ## Runs -/

/-- The moves of a run have gone through with a result. -/
structure MovesDone (o : RunSetup) (root : Path) (d : Disk) (canonical : Path)
    (moves : Move.Result) (between : Disk) : Prop where
  resolved : resolvedRoot d root = .ok canonical
  executed : ∃ plans, Move.plan d canonical o.classifier o.exclusion = .ok plans ∧
    Move.execute canonical plans d = (.ok moves, between)

/-- The notice that a run ends with which ends early. -/
def errorNotice (e : RunError) : Notice := .error s!"Failed to organize project: {e.message}"

/-- What runs tell, by how they end. -/
inductive Told (o : RunSetup) (root : Path) (d : Disk) :
    Except RunError Report → List Notice → Prop
  /-- Nothing has moved. -/
  | still {canonical : Path} {moves : Move.Result} {between : Disk} {report : Report}
      {warned : List Notice} (done : MovesDone o root d canonical moves between)
      (moved : moves.moved = []) (same : report.moved = [] ∧ report.skipped = moves.skipped)
      (failures : report.failures = []) (skips : Warned skipMessage moves.skipped warned) :
      Told o root d (.ok report) warned
  /-- Files have moved, and all listed texts have been scanned. -/
  | complete {canonical : Path} {moves : Move.Result} {between : Disk} {listing : Listing}
      {report : Report} {warned failed : List Notice}
      (done : MovesDone o root d canonical moves between) (moved : moves.moved ≠ [])
      (same : report.moved = moves.moved ∧ report.skipped = moves.skipped)
      (listed : o.list between canonical = .ok listing)
      (scanned : report.scanned = (listing.files.filter Path.isText).length)
      (skips : Warned skipMessage moves.skipped warned)
      (failures : Warned failureMessage report.failures failed) :
      Told o root d (.ok report) (warned ++
        (updateNotices report.scanned (listing.files.filter Path.isText) ++ (failed ++
          [successNotice report.moved.length report.updated.length])))
  /-- The run has ended before the moves were done. -/
  | refused {e : RunError} (undone : ∀ canonical moves between,
      ¬ MovesDone o root d canonical moves between) :
      Told o root d (.error e) [errorNotice e]
  /-- The files could not be listed. -/
  | unlisted {canonical : Path} {moves : Move.Result} {between : Disk} {e : RunError}
      {warned : List Notice} (done : MovesDone o root d canonical moves between)
      (moved : moves.moved ≠ []) (listed : o.list between canonical = .error e)
      (skips : Warned skipMessage moves.skipped warned) :
      Told o root d (.error e) (warned ++ [errorNotice e])
  /-- The updates have stopped at a text. -/
  | stopped {canonical : Path} {moves : Move.Result} {between : Disk} {listing : Listing}
      {e : RunError} {warned : List Notice} {scanned later : List Path} {failing : Path}
      (done : MovesDone o root d canonical moves between) (moved : moves.moved ≠ [])
      (listed : o.list between canonical = .ok listing)
      (texts : listing.files.filter Path.isText = scanned ++ failing :: later)
      (skips : Warned skipMessage moves.skipped warned) :
      Told o root d (.error e) (warned ++
        (updateNotices (listing.files.filter Path.isText).length scanned ++ [errorNotice e]))

section

variable {o : RunSetup} {root : Path} {d : Disk}

theorem MovesDone.eq {canonical canonical' : Path} {moves moves' : Move.Result}
    {between between' : Disk} (h : MovesDone o root d canonical moves between)
    (h' : MovesDone o root d canonical' moves' between') : moves = moves' := by
  obtain rfl := Except.ok.inj (h.resolved.symm.trans h'.resolved)
  obtain ⟨plans, hplan, hexec⟩ := h.executed
  obtain ⟨plans', hplan', hexec'⟩ := h'.executed
  obtain rfl := Except.ok.inj (hplan.symm.trans hplan')
  exact Except.ok.inj (Prod.mk.inj (hexec.symm.trans hexec')).1

/-- An outcome tells what it should once its error is told, if it is one. -/
def ToldBy (o : RunSetup) (root : Path) (d : Disk) (outcome : Outcome) : Prop :=
  match outcome.result with
  | .ok report => Told o root d (.ok report) outcome.notices
  | .error e => Told o root d (.error e) (outcome.notices ++ [errorNotice e])

theorem toldBy_afterMoves {canonical : Path} {moves : Move.Result} {between : Disk}
    (done : MovesDone o root d canonical moves between) :
    ToldBy o root d (afterMoves o canonical moves between) := by
  have skips := warned_skipNotices moves.skipped
  unfold afterMoves
  dsimp only
  split
  · next hnone =>
    have moved := List.isEmpty_iff.1 hnone
    exact .still done moved ⟨moved, rfl⟩ rfl skips
  · next hsome =>
    have moved : moves.moved ≠ [] := fun h => hsome (List.isEmpty_iff.2 h)
    cases listed : o.list between canonical with
    | error e => exact .unlisted done moved listed skips
    | ok listing =>
      simp only [updateReferences, Reference.updateFiles]
      rcases progress_updateEach o.references moves.moved (listing.files.filter Path.isText)
        between with ⟨summary, hresult, hscanned, hprogress⟩ | ⟨e, f, later, hresult, hprogress⟩
      · have failures := warned_failureNotices (listing.unreadable ++ summary.failed)
        simp only [ToldBy, hresult, hprogress]
        rw [← hscanned, List.append_assoc _ _ [_]]
        exact .complete done moved ⟨rfl, rfl⟩ listed hscanned skips failures
      · simp only [ToldBy, hresult]
        rw [List.append_assoc]
        exact .stopped done moved listed hprogress skips

theorem toldBy_runPhases (o : RunSetup) (root : Path) (d : Disk) :
    ToldBy o root d (runPhases o root d) := by
  unfold runPhases
  cases hroot : resolvedRoot d root with
  | error e =>
    -- a step before the end of the moves has failed, and it has one outcome only
    exact .refused fun _ _ _ done => by simpa [hroot] using done.resolved
  | ok canonical =>
    cases hplan : Move.plan d canonical o.classifier o.exclusion with
    | error e =>
      simp only [hplan]
      refine .refused fun _ _ _ done => ?_
      obtain rfl := Except.ok.inj (hroot.symm.trans done.resolved)
      obtain ⟨_, hok, -⟩ := done.executed
      simp [hplan] at hok
    | ok plans =>
      cases hexec : Move.execute canonical plans d with
      | mk result between =>
        simp only [hplan, hexec]
        cases result with
        | error e =>
          refine .refused fun _ _ _ done => ?_
          obtain rfl := Except.ok.inj (hroot.symm.trans done.resolved)
          obtain ⟨_, hok, hdone⟩ := done.executed
          obtain rfl := Except.ok.inj (hplan.symm.trans hok)
          simp [hexec] at hdone
        | ok moves => exact toldBy_afterMoves ⟨hroot, plans, hplan, hexec⟩

/-- What a run tells follows from how it ends. -/
theorem told_organize (o : RunSetup) (root : Path) (d : Disk) :
    Told o root d (organize o root d).result (organize o root d).notices := by
  have htold := toldBy_runPhases o root d
  unfold ToldBy at htold
  unfold organize
  dsimp only
  split at htold
  · next report hresult =>
    simp only [hresult]
    exact htold
  · next e hresult =>
    simp only [hresult]
    exact htold

end

/-! ## Single notices -/

theorem mem_updateNotices_iff {n : Notice} {total : Nat} {scanned : List Path} :
    n ∈ updateNotices total scanned ↔
      n = .info s!"Updating references in {total} text file(s)..." ∨ n = .started total ∨
        (∃ p ∈ scanned, n = .scanned p) ∨ n = .finished := by
  simp [updateNotices, eq_comm]

/-- What is told once updates have started. -/
theorem updateNotices_eq (total : Nat) (scanned : List Path) :
    updateNotices total scanned =
      [.info s!"Updating references in {total} text file(s)..."] ++
        .started total :: (scanned.map .scanned ++ [.finished]) := by
  simp [updateNotices]

theorem warning_notMem_updateNotices {message : String} {total : Nat} {scanned : List Path} :
    .warning message ∉ updateNotices total scanned := by
  simp [mem_updateNotices_iff]

theorem MovesDone.exists_skipped_iff {o : RunSetup} {root : Path} {d : Disk} {canonical : Path}
    {moves : Move.Result} {between : Disk} (done : MovesDone o root d canonical moves between) :
    (∃ canonical moves between, MovesDone o root d canonical moves between ∧ moves.skipped ≠ []) ↔
      moves.skipped ≠ [] := by
  constructor
  · rintro ⟨_, _, _, hother, hskipped⟩
    rwa [done.eq hother]
  · intro hskipped
    exact ⟨canonical, moves, between, done, hskipped⟩

/-- Where a notice of a start is the only one, what follows it is what follows that one. -/
theorem after_started {front back before after : List Notice} {total n : Nat}
    (hfront : ∀ k, .started k ∉ front) (hback : ∀ k, .started k ∉ back)
    (h : front ++ .started total :: back = before ++ .started n :: after) :
    before = front ∧ after = back := by
  have hmem : .started n ∈ front ++ .started total :: back := by simp [h]
  obtain rfl : n = total := by simpa [hfront, hback] using hmem
  obtain ⟨hbefore, -, hafter⟩ := (List.append_cons_inj_of_notMem (hfront n) (hback n)).1 h
  exact ⟨hbefore.symm, hafter.symm⟩

/-- Updates are finished once after they have started, if nothing around them tells of either. -/
theorem finished_of_updateNotices {warned rest before after : List Notice} {total n : Nat}
    {scanned : List Path} (hwarned : ∀ k, .started k ∉ warned) (hrest : ∀ k, .started k ∉ rest)
    (hwarned' : .finished ∉ warned) (hrest' : .finished ∉ rest)
    (h : warned ++ (updateNotices total scanned ++ rest) = before ++ .started n :: after) :
    .finished ∉ before ∧ after.count .finished = 1 := by
  have hscanned : (scanned.map Notice.scanned).count .finished = 0 :=
    List.count_eq_zero.2 (by simp)
  rw [updateNotices_eq, List.append_assoc, ← List.append_assoc warned, List.cons_append] at h
  obtain ⟨rfl, rfl⟩ := after_started (by simp [hwarned]) (by simp [hrest]) h
  simp [hwarned', hscanned, List.count_eq_zero.2 hrest']

namespace Told

variable {o : RunSetup} {root : Path} {d : Disk} {result : Except RunError Report}
  {notices : List Notice} (h : Told o root d result notices)
include h

/-- Files are said to be skipped if the moves are done and have skipped some. -/
theorem skipMessage_iff : (∃ line, .warning (skipMessage line) ∈ notices) ↔
    ∃ canonical moves between, MovesDone o root d canonical moves between ∧
      moves.skipped ≠ [] := by
  cases h with
  | still done _ _ _ skips => rw [skips.exists_mem_iff, done.exists_skipped_iff]
  | complete done _ _ _ _ skips failures =>
    have hfailed := fun line => failures.notMem fun line' heq =>
      skipMessage_ne_failureMessage line line' (Notice.warning.inj heq)
    rw [done.exists_skipped_iff, skips.exists_mem_append_iff]
    simp [warning_notMem_updateNotices, hfailed, successNotice]
  | refused undone =>
    constructor
    · simp [errorNotice]
    · rintro ⟨canonical, moves, between, done, -⟩
      exact absurd done (undone canonical moves between)
  | unlisted done _ _ skips =>
    rw [done.exists_skipped_iff, skips.exists_mem_append_iff]
    simp [errorNotice]
  | stopped done _ _ _ skips =>
    rw [done.exists_skipped_iff, skips.exists_mem_append_iff]
    simp [errorNotice, warning_notMem_updateNotices]

/-- References are said not to be updated if the run ends well and reports such failures. -/
theorem failureMessage_iff : (∃ line, .warning (failureMessage line) ∈ notices) ↔
    ∃ report, result = .ok report ∧ report.failures ≠ [] := by
  have hskips : ∀ {skips warned}, Warned skipMessage skips warned → ∀ line,
      .warning (failureMessage line) ∉ warned := fun hwarned line =>
    hwarned.notMem fun line' heq =>
      skipMessage_ne_failureMessage line' line (Notice.warning.inj heq).symm
  cases h with
  | still _ _ _ failures skips => simp [hskips skips, failures]
  | complete _ _ _ _ _ skips failures =>
    simp only [List.mem_append, hskips skips, warning_notMem_updateNotices, List.mem_singleton,
      successNotice, reduceCtorEq, false_or, or_false, failures.exists_mem_iff, Except.ok.injEq,
      exists_eq_left']
  | refused => simp [errorNotice]
  | unlisted _ _ _ skips => simp [hskips skips, errorNotice]
  | stopped _ _ _ _ skips => simp [hskips skips, warning_notMem_updateNotices, errorNotice]

/-- Success is told of runs that end well only. -/
theorem ok_of_success {message : String} (hmem : .success message ∈ notices) :
    ∃ report, result = .ok report := by
  cases h with
  | still => exact ⟨_, rfl⟩
  | complete => exact ⟨_, rfl⟩
  | refused => simp [errorNotice] at hmem
  | unlisted _ _ _ skips =>
    simp [errorNotice, skips.notMem (n := .success message) nofun] at hmem
  | stopped _ _ _ _ skips =>
    simp [errorNotice, skips.notMem (n := .success message) nofun, mem_updateNotices_iff] at hmem

/-- Errors are told of runs that end early only. -/
theorem error_of_error {message : String} (hmem : .error message ∈ notices) :
    ∃ e, result = .error e := by
  cases h with
  | still _ _ _ _ skips => exact absurd hmem (skips.notMem nofun)
  | complete _ _ _ _ _ skips failures =>
    simp [successNotice, skips.notMem (n := .error message) nofun,
      failures.notMem (n := .error message) nofun, mem_updateNotices_iff] at hmem
  | refused => exact ⟨_, rfl⟩
  | unlisted => exact ⟨_, rfl⟩
  | stopped => exact ⟨_, rfl⟩

/-- What has started is finished once after that, and not before. -/
theorem finished_of_started {total : Nat} {before after : List Notice}
    (hstarted : notices = before ++ .started total :: after) :
    .finished ∉ before ∧ after.count .finished = 1 := by
  have hmem : .started total ∈ notices := by simp [hstarted]
  cases h with
  | still _ _ _ _ skips => exact absurd hmem (skips.notMem nofun)
  | complete _ _ _ _ _ skips failures =>
    refine finished_of_updateNotices (fun k => skips.notMem nofun) (fun k => ?_)
      (skips.notMem nofun) ?_ hstarted
    · simp [failures.notMem (n := .started k) nofun, successNotice]
    · simp [failures.notMem (n := .finished) nofun, successNotice]
  | refused => simp [errorNotice] at hmem
  | unlisted _ _ _ skips =>
    simp [errorNotice, skips.notMem (n := .started total) nofun] at hmem
  | stopped _ _ _ _ skips =>
    exact finished_of_updateNotices (fun k => skips.notMem nofun) (by simp [errorNotice])
      (skips.notMem nofun) (by simp [errorNotice]) hstarted

end Told

/-- The notices of a run come in one of a few orders, which its result decides. Files are said to be
skipped if the moves are done and have skipped some, and failures are told if there are any. A run
does not tell of both success and an error, and updates that have started are finished once. -/
theorem organize_notices (o : RunSetup) (root : Path) (d : Disk) :
    Told o root d (organize o root d).result (organize o root d).notices ∧
    ((∃ line, .warning (skipMessage line) ∈ (organize o root d).notices) ↔
      ∃ canonical moves between, MovesDone o root d canonical moves between ∧
        moves.skipped ≠ []) ∧
    ((∃ line, .warning (failureMessage line) ∈ (organize o root d).notices) ↔
      ∃ report, (organize o root d).result = .ok report ∧ report.failures ≠ []) ∧
    (∀ message message', ¬ (.success message ∈ (organize o root d).notices ∧
      .error message' ∈ (organize o root d).notices)) ∧
    ∀ total before after, (organize o root d).notices = before ++ .started total :: after →
      .finished ∉ before ∧ after.count .finished = 1 := by
  have htold := told_organize o root d
  refine ⟨htold, htold.skipMessage_iff, htold.failureMessage_iff, ?_, fun _ _ _ =>
    htold.finished_of_started⟩
  rintro message message' ⟨hsuccess, herror⟩
  obtain ⟨report, hok⟩ := htold.ok_of_success hsuccess
  obtain ⟨e, he⟩ := htold.error_of_error herror
  simp [hok] at he

end SiteFolders
