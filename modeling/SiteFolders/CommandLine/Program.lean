import SiteFolders.CommandLine.Arguments
import SiteFolders.CommandLine.Display
import SiteFolders.CommandLine.ReportText
import SiteFolders.CommandLine.Usage
import SiteFolders.Settings.Load

/-!
# The program

The whole program as a function of its arguments, the disk, the home directory and the answer to
the question before anything is moved. `runCommand` does what the arguments ask for; `program`
adds the reading of the arguments, the message about an error and the exit status. An error is
shown once: by the run itself where it shows its notices, and otherwise at the end.
-/

namespace SiteFolders.CommandLine

/-- Why the program stops. -/
inductive Failure where
  | loading (error : SettingsError)
  | settings (error : SettingsError)
  | run (error : RunError)

/-- What is said about a failure. -/
def Failure.message : Failure → String
  | .loading error => "Error loading configuration: " ++ error.message
  | .settings error => "Error in configuration: " ++ error.message
  | .run error => error.message

/-- What a command did: why it failed, if it did, whether that has been shown already, what was
shown, and the disk. -/
structure Effect where
  failure : Option Failure := none
  reported : Bool := false
  shown : List Shown := []
  disk : Disk

/-- What the program takes from its surroundings besides the disk. -/
structure Surroundings where
  home : Option String := none
  /-- The time at which the run starts, as it is written in reports. -/
  now : String := ""
  /-- The answer to the question whether files may be moved. -/
  confirmed : Bool := false

/-- The settings with what the arguments say instead. -/
def Arguments.override (a : Arguments) (s : Settings) : Settings :=
  { s with
    looseMentions := s.looseMentions && !a.noLoose
    lister := a.lister.getD s.lister }

/-- The lines that show a plan. -/
def planShown (root : Path) (plans : List Move.Planned) : List Shown :=
  if plans.isEmpty then [.plain "No files found to organize."]
  else
    [.dryRun ("Analyzing " ++ root.text)]
      ++ plans.map (fun p => .plain
        s!" - {p.fileName} → {p.category.folder}/ ({p.category.description})")
      ++ [.summary (countNames (plans.map (·.category.folder))) plans.length,
        .dryRun "No files were modified."]

/-- The lines that show a report. -/
def reportShown (r : Report) : List Shown :=
  let updated := r.updated.map fun p =>
    Shown.plain (" - " ++ ((Path.stripPrefix? r.root p).getD p).text)
  if r.moved.isEmpty then []
  else
    [.header "MOVED"]
      ++ r.moved.map (fun m => .plain s!" - {m.oldName} → {m.newRelative}")
      ++ [.summary r.folderCounts r.moved.length]
      ++ (if updated.isEmpty then [] else .header "UPDATED REFERENCES" :: updated)

/-- Shows where files would go. -/
def dryRun (o : RunSetup) (root : Path) (d : Disk) : Effect :=
  match plannedMoves o root d with
  | .error e => { failure := some (.run e), disk := d }
  | .ok plans => { shown := planShown root plans, disk := d }

/-- Organizes the project and shows the report as JSON. -/
def runSilently (o : RunSetup) (now : String) (root : Path) (d : Disk) : Effect :=
  let outcome := organize o root d
  match outcome.result with
  | .error e => { failure := some (.run e), disk := outcome.disk }
  | .ok report =>
    { shown := [.plain ((reportJson now report).write 0)], disk := outcome.disk }

/-- Organizes the project, showing what the run tells and then its report. -/
def runAloud (o : RunSetup) (root : Path) (d : Disk) : Effect :=
  let outcome := organize o root d
  let told := .info ("Organizing " ++ root.text) :: outcome.notices.filterMap Shown.ofNotice?
  match outcome.result with
  | .error e =>
    { failure := some (.run e), reported := true, shown := told, disk := outcome.disk }
  | .ok report => { shown := told ++ reportShown report, disk := outcome.disk }

/-- Does what the arguments ask for. -/
def runCommand (a : Arguments) (s : Surroundings) (d : Disk) : Effect :=
  match Settings.load d s.home a.config a.root with
  | .error e => { failure := some (.loading e), disk := d }
  | .ok settings =>
    match RunSetup.ofSettings (a.override settings) with
    | .error e => { failure := some (.settings e), disk := d }
    | .ok o =>
      if a.dryRun then dryRun o a.root d
      else if !a.yes && !s.confirmed then
        { shown := [.plain "Cancelled. Nothing was changed."], disk := d }
      else if a.json then runSilently o s.now a.root d
      else runAloud o a.root d

/-! ## The program as a whole -/

/-- The end of the program: its exit status, what was shown, and the disk. -/
structure Exit where
  status : Nat
  shown : List Shown
  disk : Disk

/-- The end of the program after a command. -/
def Effect.exit (e : Effect) : Exit :=
  match e.failure with
  | none => ⟨0, e.shown, e.disk⟩
  | some failure =>
    ⟨1, if e.reported then e.shown else e.shown ++ [.error failure.message], e.disk⟩

/-- The program on arguments that are understood. -/
def programOn (a : Arguments) (s : Surroundings) (d : Disk) : Exit := (runCommand a s d).exit

/-- The program. Arguments that are not understood give the status 2. -/
def program (arguments : List String) (s : Surroundings) (d : Disk) : Exit :=
  match parse arguments with
  | .ok a => programOn a s d
  | .error fault =>
    match fault with
    | .help _ | .version => ⟨0, [.plain fault.message], d⟩
    | _ => ⟨2, [.usage fault.message], d⟩

end SiteFolders.CommandLine
