import TypedRoutes.Command.Arguments
import TypedRoutes.Run.Results
import TypedRoutes.Run.Write
import TypedRoutes.Scan.Pattern

/-!
# Commands

What the commands do on a disk, and what they print on the way. A command that fails has printed
and written everything that came before the failure.
-/

namespace TypedRoutes

/-- Why a command fails. -/
inductive CommandProblem where
  | settings (problem : SettingsProblem)
  | scan (problem : ScanProblem)
  | load (problem : LoadProblem)
  | write (problem : WriteProblem)
  | disk (problem : DiskProblem)
  /-- A check found snapshots that a run would change. -/
  | notTransformed (count : Nat)
  /-- There is a settings file already. -/
  | settingsExist (file : DiskPath)
  deriving DecidableEq, Repr

namespace CommandProblem

/-- The failure of a command in words. -/
def message : CommandProblem → String
  | .settings problem => "Failed to load configuration: " ++ problem.message
  | .scan problem => "Failed to scan directory: " ++ problem.message
  | .load problem => "Failed to load snapshot: " ++ problem.message
  | .write problem => "Failed to write output: " ++ problem.message
  | .disk problem => "IO error: " ++ problem.message
  | .notTransformed count =>
    "Check failed: " ++ toString count ++ " snapshot(s) are not transformed"
  | .settingsExist file =>
    "Check failed: Configuration file already exists: " ++ file.text

/-- The exit code of a command that failed: what a check found is told apart from what went
wrong. -/
def exitCode : CommandProblem → Nat
  | .notTransformed _ | .settingsExist _ => 2
  | _ => 1

end CommandProblem

/-- A command in progress on a disk: it prints lines, and it may fail. -/
abbrev Session (m : Type → Type) := ExceptT CommandProblem (StateT (List String) m)

namespace Session

variable {m : Type → Type} [Monad m]

/-- Prints a line. -/
def say (line : String) : Session m Unit :=
  modifyGet fun lines => ((), lines ++ [line])

/-- Goes on with a result that the disk gave, or fails for the given reason. -/
def orFail {ε α : Type} (reason : ε → CommandProblem) (ask : m (Except ε α)) : Session m α := do
  match ← (monadLift ask : StateT (List String) m (Except ε α)) with
  | .ok value => return value
  | .error problem => throw (reason problem)

/-- Asks the disk something that it always answers. -/
def ask {α : Type} (question : m α) : Session m α :=
  ExceptT.lift (StateT.lift question)

end Session

namespace Settings

open Session

/-- The line around what a dry run shows. -/
def rule : String := String.ofList (List.replicate 60 '─')

variable {m : Type → Type} [Monad m] [MonadDisk m]

/-- What the settings say about a scan. A strict run also looks at the results of others. -/
def scanRequest [Globs] (settings : Settings) (strict : Bool) :
    Except ScanProblem ScanRequest := do
  let excluded? := if strict then none else some settings.output
  match settings.filter? with
  | none => return { root := settings.input, excluded? }
  | some pattern =>
    match Globs.compile pattern with
    | .ok selects => return { root := settings.input, excluded?, filter? := some selects }
    | .error message => .error (.badPattern pattern message)

/-- Tells what is wrong with snapshots that cannot be loaded; a strict run fails with the first. -/
def tellProblems (strict : Bool) (problems : List LoadProblem) : Session m Unit := do
  match problems with
  | [] => return
  | first :: _ =>
    if strict then throw (.load first)
    else
      say ("Warning: " ++ toString problems.length ++ " snapshot(s) failed to load:")
      problems.forM fun problem => say ("  " ++ problem.message)

/-- Finds, loads and augments snapshots; none if there are none. -/
def augmentAll [MonadWalk m] [Globs] (settings : Settings) (workingDirectory : String)
    (strict : Bool) : Session m (Option (List RunResult)) := do
  say "Scanning for type snapshots..."
  let request ← orFail .scan (pure (settings.scanRequest strict))
  match ← orFail .scan request.scanAllowingNone with
  | [] =>
    say "No snapshot files found."
    return none
  | files =>
    say ("  Found " ++ toString files.length ++ " snapshot(s)")
    let (snapshots, problems) := loadAll files
    tellProblems strict problems
    say ("Transforming (" ++ settings.mode.name ++ " mode)...")
    let results := settings.run workingDirectory snapshots
    say ("  Augmented " ++ toString (RunResult.augmented results) ++ " decorator(s), left " ++
      toString (RunResult.skipped results) ++ " unchanged")
    return some results

/-- Tells what became of a result. -/
def tellOutcome : WriteOutcome → Session m Unit
  | .written path bytes =>
    say ("✓ Written " ++ toString bytes ++ " bytes to " ++ path.text)
  | .unchanged path => say ("· Unchanged " ++ path.text)
  | .preview path content => do
    say ("[dry-run] Would write to " ++ path.text ++ ":")
    say rule
    say content
    say rule

/-- Writes results one after the other; the first one that cannot be written ends the run. -/
def writeAll (settings : Settings) (dryRun : Bool) : List RunResult → Session m Unit
  | [] => return
  | result :: rest => do
    let outcome ← orFail .write (writeResult dryRun
      (result.outputPath settings.output settings.format) (result.render settings.format))
    tellOutcome outcome
    writeAll settings dryRun rest

/-- Augments snapshots and writes the results. -/
def transform [MonadWalk m] [Globs] (settings : Settings) (workingDirectory : String)
    (dryRun : Bool) : Session m Unit := do
  match ← settings.augmentAll workingDirectory false with
  | none => return
  | some results => settings.writeAll dryRun results

/-- The first round of a run that goes on whenever a snapshot changes. -/
def startWatching [MonadWalk m] [Globs] (settings : Settings) (workingDirectory : String)
    (dryRun : Bool) : Session m Unit := do
  say "Starting watch mode..."
  say ("  Watching: " ++ settings.input.text)
  say "  Press Ctrl+C to stop"
  say ""
  settings.transform workingDirectory dryRun
  say ""
  say "Watching for changes..."

/-- Fails if a run would change a snapshot. -/
def check [MonadWalk m] [Globs] (settings : Settings) (workingDirectory : String) :
    Session m Unit := do
  match ← settings.augmentAll workingDirectory true with
  | none => return
  | some results =>
    match RunResult.changed results with
    | [] => say "✓ All snapshots are transformed"
    | changed =>
      say ("✗ " ++ toString changed.length ++ " snapshot(s) would change:")
      changed.forM fun result => say ("  " ++ result.relative.text ++ " (" ++
        toString result.report.augmented ++ " decorator(s))")
      say "  Run 'nestia-transform transform' to update"
      throw (.notTransformed changed.length)

/-- Writes a settings file with the usual values. -/
def writeFirst (file : DiskPath) (force : Bool) : Session m Unit := do
  if (← ask (MonadDisk.hasEntry file)) && !force then
    say "  Use --force to overwrite"
    throw (.settingsExist file)
  orFail .disk (MonadDisk.write file initialText)
  say ("✓ Created configuration file: " ++ file.text)

/-- Loads the settings of a command and applies what its options say. -/
def loadFor (settingsFile? : Option DiskPath) (overrides : Overrides) : Session m Settings := do
  let settings ← orFail .settings (load (settingsFile?.getD (.ofString fileName)))
  return settings.override overrides

end Settings

variable {m : Type → Type} [Monad m] [MonadDisk m] [MonadWalk m] [Globs]

/-- Carries out a command. -/
def Command.session (workingDirectory : String) : Command → Session m Unit
  | .transform settingsFile? overrides watch dryRun => do
    let settings ← Settings.loadFor settingsFile? overrides
    if watch then settings.startWatching workingDirectory dryRun
    else settings.transform workingDirectory dryRun
  | .check settingsFile? overrides => do
    (← Settings.loadFor settingsFile? overrides).check workingDirectory
  | .init file force => Settings.writeFirst file force

/-- Carries out a command from start to end: the lines that it printed, and why it failed if it
did. -/
def Command.run (workingDirectory : String) (command : Command) :
    m (List String × Option CommandProblem) := do
  let (result, lines) ← (command.session workingDirectory : Session m Unit).run.run []
  return (lines, match result with
    | .ok () => none
    | .error problem => some problem)

end TypedRoutes
