import SiteFolders.Settings.Basic

/-!
# Command-line arguments

Arguments are taken one after another. A value that an option or the root has been given is only
looked at when the next argument is understood (`Reading.settle`), so an argument that is not known
is reported before a bad value in front of it. Help and version end the reading as soon as they
are reached.
-/

namespace SiteFolders.CommandLine

/-- What the user asked for. -/
structure Arguments where
  root : Path
  yes : Bool := false
  dryRun : Bool := false
  noLoose : Bool := false
  lister : Option Lister := none
  config : Option Path := none
  json : Bool := false
  verbose : Nat := 0
deriving DecidableEq

/-- Why arguments are not understood, or need no run. -/
inductive Fault where
  | missingRequired
  | unknownArgument
  | invalidValue
  | conflict
  | tooManyValues
  | help (long : Bool)
  | version
deriving DecidableEq

/-- Options without a value. -/
inductive Switch where
  | yes
  | dryRun
  | noLoose
  | json
  | verbose
  | help (long : Bool)
  | version
deriving DecidableEq

/-- Things that take a value. -/
inductive Slot where
  | root
  | lister
  | config
deriving DecidableEq

/-- What has been read so far, and the value that is still to be looked at. -/
structure Reading where
  root : Option Path := none
  switches : List Switch := []
  lister : Option Lister := none
  config : Option Path := none
  verbose : Nat := 0
  pending : Option (Slot × Option String) := none

/-- The words for listers. -/
def listerWords : List (String × Lister) := [("walk", .walk), ("glob", .glob)]

/-- The highest count of `-v`. -/
def verboseLimit : Nat := 255

namespace Reading

/-- Gives a slot its value. -/
def give (r : Reading) (slot : Slot) (value : Option String) : Except Fault Reading :=
  match value with
  | none => .error .invalidValue
  | some value =>
    match slot with
    | .root => if value.isEmpty then .error .invalidValue else .ok { r with root := some ⟨value⟩ }
    | .config =>
      if r.config.isSome then .error .conflict
      else if value.isEmpty then .error .invalidValue
      else .ok { r with config := some ⟨value⟩ }
    | .lister =>
      if r.lister.isSome then .error .conflict
      else match listerWords.lookup value with
      | some lister => .ok { r with lister := some lister }
      | none => .error .invalidValue

/-- Looks at the value that is pending. -/
def settle (r : Reading) : Except Fault Reading :=
  match r.pending with
  | none => .ok r
  | some (slot, value) => { r with pending := none }.give slot value

/-- Sets a switch. Only `-v` may be set more than once. -/
def press (r : Reading) (switch : Switch) : Except Fault Reading := do
  let r ← r.settle
  match switch with
  | .help long => throw (.help long)
  | .version => throw .version
  | .verbose => return { r with verbose := min verboseLimit (r.verbose + 1) }
  | switch =>
    if r.switches.contains switch then throw .conflict
    else return { r with switches := switch :: r.switches }

/-- Starts a slot whose value is in the same argument, or in the next one. -/
def start (r : Reading) (slot : Slot) (value : Option String) : Except Fault Reading := do
  let r ← r.settle
  match value with
  | some value => r.give slot (some value)
  | none => return { r with pending := some (slot, none) }

/-- Takes an argument as the root. -/
def takeRoot (r : Reading) (value : String) : Except Fault Reading :=
  if r.root.isSome || (r.pending.any fun p => p.1 == .root) then .error .unknownArgument
  else do
    let r ← r.settle
    return { r with pending := some (.root, some value) }

end Reading

/-- The switches by their long names. -/
def longSwitches : List (String × Switch) :=
  [("yes", .yes), ("dry-run", .dryRun), ("no-loose", .noLoose), ("json", .json),
    ("verbose", .verbose), ("help", .help true), ("version", .version)]

/-- The slots by their long names. -/
def longSlots : List (String × Slot) := [("enumerator", .lister), ("config", .config)]

/-- Reads an argument that starts with two hyphens, which are gone. -/
def readLong (r : Reading) (body : List Char) : Except Fault Reading :=
  let name := String.ofList (body.takeWhile (· != '='))
  let value := match body.dropWhile (· != '=') with
    | [] => none
    | _ :: value => some (String.ofList value)
  match longSwitches.lookup name with
  | some switch => if value.isSome then .error .tooManyValues else r.press switch
  | none =>
    match longSlots.lookup name with
    | some slot => r.start slot value
    | none => .error .unknownArgument

/-- Reads the letters of an argument that starts with one hyphen, which is gone. -/
def readShort : Reading → List Char → Except Fault Reading
  | r, [] => .ok r
  | r, c :: rest =>
    match c with
    | 'y' => do readShort (← r.press .yes) rest
    | 'v' => do readShort (← r.press .verbose) rest
    | 'h' => do readShort (← r.press (.help false)) rest
    | 'V' => do readShort (← r.press .version) rest
    | 'c' =>
      match rest with
      | [] => r.start .config none
      | '=' :: value => r.start .config (some (String.ofList value))
      | value => r.start .config (some (String.ofList value))
    | _ => .error .unknownArgument

/-- Reads an argument that may be an option. -/
def readOne (r : Reading) (argument : String) : Except Fault Reading :=
  match argument.toList with
  | '-' :: '-' :: body => readLong r body
  | '-' :: c :: rest => readShort r (c :: rest)
  | _ =>
    match r.pending with
    | some (slot, none) => .ok { r with pending := some (slot, some argument) }
    | _ => r.takeRoot argument

/-- Reads arguments. After a lone `--` no argument is an option. -/
def readAll : (plain : Bool) → Reading → List String → Except Fault Reading
  | _, r, [] => .ok r
  | true, r, argument :: rest => do readAll true (← r.takeRoot argument) rest
  | false, r, argument :: rest =>
    if argument = "--" then readAll true r rest
    else do readAll false (← readOne r argument) rest

/-- Reads the arguments of the program, without its own name. -/
def parse (arguments : List String) : Except Fault Arguments := do
  let r ← readAll false {} arguments
  let r ← r.settle
  match r.root with
  | none => throw .missingRequired
  | some root => return {
      root
      yes := r.switches.contains .yes
      dryRun := r.switches.contains .dryRun
      noLoose := r.switches.contains .noLoose
      lister := r.lister
      config := r.config
      json := r.switches.contains .json
      verbose := r.verbose }

/-! ## Log levels -/

/-- How much is logged. -/
inductive LogLevel where
  | warn
  | info
  | debug
  | trace
deriving DecidableEq

/-- The name of a level. -/
def LogLevel.name : LogLevel → String
  | .warn => "warn"
  | .info => "info"
  | .debug => "debug"
  | .trace => "trace"

/-- The level for a count of `-v`. -/
def LogLevel.ofCount : Nat → LogLevel
  | 0 => .warn
  | 1 => .info
  | 2 => .debug
  | _ => .trace

end SiteFolders.CommandLine
