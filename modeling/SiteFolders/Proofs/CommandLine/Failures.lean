import SiteFolders.CommandLine.Program
import SiteFolders.Proofs.Run.Notices

/-!
# How failures are shown

A failure is shown once, whoever shows it. A run that tells what it does ends with the error it has
met and shows no other (`Told.errors`), and all other commands leave the error to the end of the
program. What a command leaves behind says which of the two it is (`Effect.Accounted`), and the
end of the program goes by that (`program_shows_failure`).

This holds on any disk, whatever the settings and the answer to the question are.
-/

namespace SiteFolders

/-! ## Errors among notices -/

/-- What a notice says of an error. -/
def Notice.error? : Notice → Option String
  | .error message => some message
  | _ => none

/-- The errors that a run tells of, by how it ends. -/
def errorsOf : Except RunError Report → List String
  | .ok _ => []
  | .error e => ["Failed to organize project: " ++ e.message]

/-- Warnings about files say nothing of errors. -/
theorem Warned.errors {message : String → String} {skips : List Skip} {warned : List Notice}
    (h : Warned message skips warned) : warned.filterMap Notice.error? = [] := by
  cases h with
  | silent => rfl
  | told => rfl

theorem errors_updateNotices (total : Nat) (scanned : List Path) :
    (updateNotices total scanned).filterMap Notice.error? = [] := by
  rw [List.filterMap_eq_nil_iff]
  intro n hn
  rcases mem_updateNotices_iff.1 hn with rfl | rfl | ⟨p, -, rfl⟩ | rfl <;> rfl

theorem errors_errorNotice (e : RunError) :
    [errorNotice e].filterMap Notice.error? = errorsOf (.error e) := rfl

/-- A run tells of the error that it ends with, and of no other. -/
theorem Told.errors {o : RunSetup} {root : Path} {d : Disk} {result : Except RunError Report}
    {notices : List Notice} (h : Told o root d result notices) :
    notices.filterMap Notice.error? = errorsOf result := by
  cases h with
  | still _ _ _ _ skips => exact skips.errors
  | complete _ _ _ _ _ skips failures =>
    simp [skips.errors, failures.errors, errors_updateNotices, successNotice, Notice.error?, errorsOf]
  | refused => exact errors_errorNotice _
  | unlisted _ _ _ skips =>
    rw [List.filterMap_append, skips.errors, errors_errorNotice, List.nil_append]
  | stopped _ _ _ _ skips =>
    rw [List.filterMap_append, List.filterMap_append, skips.errors, errors_updateNotices,
      errors_errorNotice, List.nil_append, List.nil_append]

namespace CommandLine

/-! ## Errors among what is shown -/

/-- What something that is shown says of an error. -/
def Shown.error? : Shown → Option String
  | .error message => some message
  | _ => none

/-- The errors among what is shown, in order. -/
def errorsIn (shown : List Shown) : List String := shown.filterMap Shown.error?

@[simp]
theorem errorsIn_append (shown shown' : List Shown) :
    errorsIn (shown ++ shown') = errorsIn shown ++ errorsIn shown' := List.filterMap_append

@[simp]
theorem errorsIn_error (message : String) : errorsIn [.error message] = [message] := rfl

/-- A console shows the errors that it is told of. -/
theorem errorsIn_ofNotice? (notices : List Notice) :
    errorsIn (notices.filterMap Shown.ofNotice?) = notices.filterMap Notice.error? := by
  rw [errorsIn, List.filterMap_filterMap]
  congr 1
  funext n
  cases n <;> rfl

theorem errorsIn_eq_nil_iff {shown : List Shown} :
    errorsIn shown = [] ↔ ∀ x ∈ shown, x.error? = none := List.filterMap_eq_nil_iff

theorem errorsIn_planShown (root : Path) (plans : List Move.Planned) :
    errorsIn (planShown root plans) = [] := by
  unfold planShown
  split
  · rfl
  · rw [errorsIn_eq_nil_iff]
    simp only [List.mem_append, List.mem_cons, List.mem_map, List.not_mem_nil, or_false]
    rintro x (((rfl | ⟨p, -, rfl⟩) | rfl | rfl)) <;> rfl

theorem errorsIn_reportShown (r : Report) : errorsIn (reportShown r) = [] := by
  have hmoved : errorsIn (r.moved.map fun m => .plain s!" - {m.oldName} → {m.newRelative}") = [] := by
    simp [errorsIn_eq_nil_iff, Shown.error?]
  have hupdated : errorsIn (r.updated.map fun p =>
      .plain (" - " ++ ((Path.stripPrefix? r.root p).getD p).text)) = [] := by
    simp [errorsIn_eq_nil_iff, Shown.error?]
  unfold reportShown
  dsimp only
  split
  · rfl
  · rw [errorsIn_append, errorsIn_append, errorsIn_append, hmoved]
    split
    · rfl
    · exact hupdated

/-! ## Commands -/

/-- What a command has shown of its failure, and what it has left to be shown. -/
inductive Effect.Accounted (e : Effect) : Prop
  /-- There is no failure, and none has been shown. -/
  | fine (failure : e.failure = none) (silent : errorsIn e.shown = [])
  /-- The failure has been shown once. -/
  | told {f : Failure} {text : String} (failure : e.failure = some f) (reported : e.reported = true)
      (shown : errorsIn e.shown = [text]) (said : f.message.toList <:+: text.toList)
  /-- The failure is still to be shown. -/
  | untold {f : Failure} (failure : e.failure = some f) (reported : e.reported = false)
      (silent : errorsIn e.shown = [])

theorem accounted_dryRun (o : RunSetup) (root : Path) (d : Disk) :
    (dryRun o root d).Accounted := by
  unfold dryRun
  split
  · exact .untold rfl rfl rfl
  · exact .fine rfl (errorsIn_planShown _ _)

theorem accounted_runSilently (o : RunSetup) (now : String) (root : Path) (d : Disk) :
    (runSilently o now root d).Accounted := by
  unfold runSilently
  dsimp only
  split
  · exact .untold rfl rfl rfl
  · exact .fine rfl rfl

theorem accounted_runAloud (o : RunSetup) (root : Path) (d : Disk) :
    (runAloud o root d).Accounted := by
  have herrors := (told_organize o root d).errors
  have htold : errorsIn (.info ("Organizing " ++ root.text) ::
      (organize o root d).notices.filterMap Shown.ofNotice?) =
        (organize o root d).notices.filterMap Notice.error? := errorsIn_ofNotice? _
  unfold runAloud
  dsimp only
  split
  · next e he =>
    have hshown := htold.trans (herrors.trans (congrArg errorsOf he))
    have hsaid : (Failure.run e).message.toList <:+:
        ("Failed to organize project: " ++ e.message).toList := by
      rw [String.toList_append]
      exact (List.suffix_append _ _).isInfix
    exact .told rfl rfl hshown hsaid
  · next report hok =>
    have hshown := htold.trans (herrors.trans (congrArg errorsOf hok))
    refine .fine rfl ?_
    rw [errorsIn_append, hshown, errorsIn_reportShown]
    rfl

/-- Every command accounts for its failure. -/
theorem accounted_runCommand (a : Arguments) (s : Surroundings) (d : Disk) :
    (runCommand a s d).Accounted := by
  unfold runCommand
  split
  · exact .untold rfl rfl rfl
  · split
    · exact .untold rfl rfl rfl
    · split
      · exact accounted_dryRun _ _ _
      · split
        · exact .fine rfl rfl
        · split
          · exact accounted_runSilently _ _ _ _
          · exact accounted_runAloud _ _ _

/-! ## The program -/

/-- Where the arguments are understood, the status is 1 if the command fails and 0 otherwise. A
failure is shown once over the whole program, with its message: either by the command, and nothing
is added at the end, or at the end only. Without a failure no error is shown. -/
theorem program_shows_failure {arguments : List String} {a : Arguments}
    (h : parse arguments = .ok a) (s : Surroundings) (d : Disk) :
    ((program arguments s d).status = 1 ↔ ∃ f, (runCommand a s d).failure = some f) ∧
    ((program arguments s d).status = 0 ↔ (runCommand a s d).failure = none) ∧
    (∀ f, (runCommand a s d).failure = some f → ∃ text,
      errorsIn (program arguments s d).shown = [text] ∧ f.message.toList <:+: text.toList ∧
      (errorsIn (runCommand a s d).shown = [text] ∧
          (program arguments s d).shown = (runCommand a s d).shown ∨
        errorsIn (runCommand a s d).shown = [] ∧
          (program arguments s d).shown = (runCommand a s d).shown ++ [.error text])) ∧
    ((program arguments s d).status = 0 → errorsIn (program arguments s d).shown = []) := by
  have hprogram : program arguments s d = (runCommand a s d).exit := by rw [program, h]; rfl
  rw [hprogram]
  generalize runCommand a s d = effect, accounted_runCommand a s d = haccounted
  cases haccounted with
  | fine failure silent => simp [Effect.exit, failure, silent]
  | @told f text failure reported shown said =>
    simp only [Effect.exit, failure, reported, if_true]
    refine ⟨by simp, by simp, ?_, by simp⟩
    rintro f' hf'
    obtain rfl := Option.some.inj hf'
    exact ⟨text, shown, said, Or.inl ⟨shown, trivial⟩⟩
  | @untold f failure reported silent =>
    simp only [Effect.exit, failure, reported]
    refine ⟨by simp, by simp, ?_, by simp⟩
    rintro f' hf'
    obtain rfl := Option.some.inj hf'
    exact ⟨f.message, by simp [silent], List.infix_rfl, Or.inr ⟨silent, rfl⟩⟩

theorem program_shows_failure_of_missing_root :
    parse ["nope", "--yes"] = .ok { root := ⟨"nope"⟩, yes := true } ∧
    (program ["nope", "--yes"] {} { entries := [] }).status = 1 ∧
    (∃ text, errorsIn (program ["nope", "--yes"] {} { entries := [] }).shown = [text]) ∧
    parse ["nope", "--yes", "--json"] = .ok { root := ⟨"nope"⟩, yes := true, json := true } ∧
    (program ["nope", "--yes", "--json"] {} { entries := [] }).status = 1 ∧
    (∃ text, errorsIn (program ["nope", "--yes", "--json"] {} { entries := [] }).shown = [text]) := by
  have haloud : parse ["nope", "--yes"] = .ok { root := ⟨"nope"⟩, yes := true } := by decide +kernel
  have hsilent : parse ["nope", "--yes", "--json"] =
      .ok { root := ⟨"nope"⟩, yes := true, json := true } := by decide +kernel
  obtain ⟨f, hf⟩ := Option.isSome_iff_exists.1 (by decide +kernel :
    (runCommand { root := ⟨"nope"⟩, yes := true } {} { entries := [] }).failure.isSome = true)
  obtain ⟨f', hf'⟩ := Option.isSome_iff_exists.1 (by decide +kernel :
    (runCommand { root := ⟨"nope"⟩, yes := true, json := true } {}
      { entries := [] }).failure.isSome = true)
  obtain ⟨hstatus, -, htext, -⟩ := program_shows_failure haloud {} { entries := [] }
  obtain ⟨hstatus', -, htext', -⟩ := program_shows_failure hsilent {} { entries := [] }
  obtain ⟨text, hshown, -⟩ := htext f hf
  obtain ⟨text', hshown', -⟩ := htext' f' hf'
  exact ⟨haloud, hstatus.2 ⟨f, hf⟩, ⟨text, hshown⟩, hsilent, hstatus'.2 ⟨f', hf'⟩, ⟨text', hshown'⟩⟩

end CommandLine

end SiteFolders
