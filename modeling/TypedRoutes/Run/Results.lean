import TypedRoutes.Route.Augment
import TypedRoutes.Run.Load
import TypedRoutes.Settings.Basic
import TypedRoutes.Text.Lines
import TypedRoutes.Unit.Encode

/-!
# Results

What a run makes of the loaded snapshots: augmented units, which are snapshots themselves, and the
paths and texts that they are written under and as.
-/

namespace TypedRoutes

/-- A snapshot after its decorators were decided on. -/
structure RunResult where
  /-- The path of the snapshot from the scanned directory. -/
  relative : DiskPath
  unit : CompilationUnit
  report : Report
  deriving Inhabited

/-- Augments a snapshot. What was recorded about the file stays as it is. -/
def LoadedSnapshot.augment (mode : Mode) (allowList : AllowList) (snapshot : LoadedSnapshot) :
    RunResult :=
  let project : Project := ⟨snapshot.unit.types.resolver, mode, allowList⟩
  let result := project.augmentFile snapshot.unit.source
  ⟨snapshot.relative, ⟨result.file, snapshot.unit.types⟩, result.report⟩

/-- Augments snapshots as the settings say. -/
def Settings.run (settings : Settings) (workingDirectory : String)
    (snapshots : List LoadedSnapshot) : List RunResult :=
  snapshots.map (LoadedSnapshot.augment settings.mode (settings.allowList workingDirectory))

namespace RunResult

/-- A count over all results. -/
def totalOf (count : RunResult → Nat) : List RunResult → Nat
  | [] => 0
  | result :: rest => count result + totalOf count rest

/-- The number of decorators that received an artifact in any of the results. -/
def augmented (results : List RunResult) : Nat :=
  totalOf (fun result => result.report.augmented) results

/-- The number of decorators that were left as they are in any of the results. -/
def skipped (results : List RunResult) : Nat :=
  totalOf (fun result => result.report.skipped) results

/-- The results in which a decorator received an artifact. -/
def changed (results : List RunResult) : List RunResult :=
  results.filter fun result => result.report.isChanged

/-- How the names of printed decorators end. -/
def decoratorsSuffix : List Char := ".decorators.ts".toList

/-- The stem of a result whose snapshot has no name of its own. -/
def usualStem : List Char := "snapshot".toList

/-- Where a result is written below a directory: beside its snapshot, as it were. -/
def outputPath (result : RunResult) (directory : DiskPath) (format : OutputFormat) : DiskPath :=
  match format with
  | .json => directory.join result.relative
  | .typescript =>
    let name : DiskPath := ⟨result.relative.snapshotStem?.getD usualStem ++ decoratorsSuffix⟩
    match result.relative.parent? with
    | some parent => (directory.join parent).join name
    | none => directory.join name

/-- The lines of a method with decorators, its name in front of them. -/
def methodLines (className : String) (method : MethodDeclaration) : List String :=
  if method.decorators.isEmpty then []
  else ["", "// " ++ className ++ "." ++ method.name] ++
    method.decorators.map fun decorator => decorator.print {}

/-- The lines of a file as program text: where they come from, and the decorators of each method. -/
def decoratorLines (file : SourceFile) : List String :=
  ("// Generated from " ++ file.fileName.shown) ::
    file.classes.flatMap fun declaration => declaration.methods.flatMap
      (methodLines declaration.name)

/-- The text that a result is written as. -/
def render (result : RunResult) (format : OutputFormat) : String :=
  match format with
  | .json => result.unit.toText ++ "\n"
  | .typescript => unlines (decoratorLines result.unit.source)

end RunResult

end TypedRoutes
