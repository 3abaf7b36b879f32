import TypedRoutes.Command.Run
import TypedRoutes.Scan.Ignore

/-!
# The program

Runs a command on the disk of the machine. Everything that is decided is decided elsewhere; here
the questions of a command are put to the machine, and its lines are printed.
-/

namespace TypedRoutes.Program

open scoped Pattern

/-- Runs an action that may fail, and tells nothing about the failure. -/
def attempt? {α : Type} (action : IO α) : IO (Option α) := do
  try
    return some (← action)
  catch _ => return none

/-- The problem that a failure of the machine stands for. -/
def problemOf : IO.Error → DiskProblem
  | .noFileOrDirectory _ _ _ => .missing
  | .alreadyExists _ _ _ => .taken
  | .inappropriateType _ _ _ => .notADirectory
  | .invalidArgument _ 36 _ => .tooLong
  | failure => .other failure.toString

/-- Runs an action that may fail, and tells what the problem was. -/
def attempt {α : Type} (action : IO α) : IO (Except DiskProblem α) := do
  try
    return .ok (← action)
  catch failure => return .error (problemOf failure)

/-- Runs an action on a path that may fail, and tells what the problem was. -/
def attemptAt {α : Type} (path : DiskPath) (action : IO α) : IO (Except DiskProblem α) := do
  match path.flaw? with
  | some problem => return .error problem
  | none => attempt action

/-- The kind of what stands at a path. -/
def entryKind? (path : DiskPath) : IO (Option EntryKind) := do
  if path.flaw?.isSome then return none
  else
    match ← attempt? ((← IO.currentDir) / path.text).metadata with
    | none => return none
    | some found => return some (if found.type matches .dir then .directory else .file)

/-- The place of what stands at a path. -/
def entryPlace? (path : DiskPath) : IO (Option Place) := do
  if (← entryKind? path).isNone then return none
  else
    let found? ← attempt? (IO.FS.realPath ((← IO.currentDir) / path.text))
    return found?.map fun found =>
      ((pieces '/' found.toString.toList).filter fun piece => !piece.isEmpty).map String.ofList

/-- The files at or below a path, by what leads to them from there. -/
partial def entriesBelow (path : DiskPath) (place : Place) : IO (List Place) := do
  match ← entryKind? path with
  | none => return []
  | some .file => return [place]
  | some .directory =>
    let found ← ((← IO.currentDir) / path.text).readDir
    let below ← found.toList.mapM fun entry =>
      entriesBelow (path.join (.ofString entry.fileName)) (place ++ [entry.fileName])
    return below.flatten

/-- The disk of the machine. -/
instance : MonadDisk IO where
  kind? := entryKind?
  place? := entryPlace?
  read path := do
    if (← entryKind? path) = some .directory then return .error .isADirectory
    else
      let bytes ← attemptAt path (IO.FS.readBinFile path.text)
      return bytes.bind fun bytes => match String.fromUTF8? bytes with
        | some text => .ok text
        | none => .error .undecodable
  write path content := do
    if (← entryKind? path) = some .directory then return .error .isADirectory
    else attemptAt path (IO.FS.writeFile path.text content)
  makeDirectories path :=
    if path.chars.isEmpty then return .ok ()
    else attemptAt path (IO.FS.createDirAll path.text)

instance : MonadWalk IO where
  walk path repositories := do
    match ← MonadDisk.place? path with
    | none => return []
    | some root =>
      return (← readReached repositories root (← entriesBelow path [])).map .ok

/-- What a run that goes on looks at to notice changes. -/
def observe (settings : Settings) : IO (List SnapshotFile) := do
  match settings.scanRequest false with
  | .error _ => return []
  | .ok request => return (← request.scanAllowingNone).toOption.getD []

/-- Runs again whenever a snapshot has changed. -/
partial def watch (settings : Settings) (workingDirectory : String) (dryRun : Bool)
    (seen : List SnapshotFile) : IO Unit := do
  IO.sleep 500
  let now ← observe settings
  if now = seen then watch settings workingDirectory dryRun seen
  else
    let (result, lines) ←
      (settings.transform workingDirectory dryRun : Session IO Unit).run.run ["Snapshot changed"]
    IO.print (unlines lines)
    if let .error problem := result then IO.println ("Transform error: " ++ problem.message)
    watch settings workingDirectory dryRun now

/-- What is left to be done after a command that did not fail. -/
def goOn (workingDirectory : String) : Command → IO Unit
  | .transform settingsFile? overrides true dryRun => do
    let (result, _) ← (Settings.loadFor settingsFile? overrides : Session IO Settings).run.run []
    if let .ok settings := result then
      watch settings workingDirectory dryRun (← observe settings)
  | _ => return

/-- Runs a command and gives its exit code. -/
def run (command : Command) : IO UInt32 := do
  let workingDirectory := (← IO.currentDir).toString
  let (lines, problem?) ← command.run workingDirectory
  IO.print (unlines lines)
  match problem? with
  | some problem =>
    IO.eprintln ("Error: " ++ problem.message)
    return UInt32.ofNat problem.exitCode
  | none =>
    goOn workingDirectory command
    return 0

end TypedRoutes.Program

/-- Reads the command line and runs the command that it names. -/
def main (arguments : List String) : IO UInt32 := do
  match TypedRoutes.Command.ofArguments arguments with
  | .ok command => TypedRoutes.Program.run command
  | .error .misuse => return 2
  | .error _ => return 0
