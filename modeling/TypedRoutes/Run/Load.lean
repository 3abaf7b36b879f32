import TypedRoutes.Scan.Snapshots
import TypedRoutes.Unit.Read

/-!
# Loading snapshots

A snapshot that cannot be read does not keep the others from being loaded; what is wrong with it is
kept beside them.
-/

namespace TypedRoutes

/-- Why a snapshot cannot be loaded. -/
inductive LoadProblem where
  | unreadable (path : DiskPath) (problem : DiskProblem)
  | badUnit (path : DiskPath) (problem : UnitProblem)
  deriving DecidableEq, Repr

/-- What is wrong with a snapshot, in words. -/
def LoadProblem.message : LoadProblem → String
  | .unreadable path problem => "Failed to read " ++ path.text ++ ": " ++ problem.message
  | .badUnit path (.json _) => "Invalid snapshot JSON in " ++ path.text
  | .badUnit _ (.unknownReference unknown) => unknown.message

/-- A snapshot that was loaded. -/
structure LoadedSnapshot where
  path : DiskPath
  /-- The path from the scanned directory. -/
  relative : DiskPath
  unit : CompilationUnit
  deriving Inhabited

/-- Takes the unit from the text that was found at a path. -/
def CompilationUnit.ofFile (path : DiskPath) (text : String) : Except LoadProblem CompilationUnit :=
  (CompilationUnit.ofText text).mapError (.badUnit path)

/-- Loads a snapshot. -/
def SnapshotFile.load (file : SnapshotFile) : Except LoadProblem LoadedSnapshot := do
  return ⟨file.path, file.relative, ← CompilationUnit.ofFile file.path file.content⟩

/-- The snapshots that can be loaded and what is wrong with the others, each in order. -/
def loadAll : List SnapshotFile → List LoadedSnapshot × List LoadProblem
  | [] => ([], [])
  | file :: rest =>
    match file.load, loadAll rest with
    | .ok snapshot, (loaded, problems) => (snapshot :: loaded, problems)
    | .error problem, (loaded, problems) => (loaded, problem :: problems)

section

variable {m : Type → Type} [Monad m] [MonadDisk m]

/-- Loads the unit at a path. -/
def loadUnit (path : DiskPath) : m (Except LoadProblem CompilationUnit) := do
  match ← MonadDisk.read path with
  | .ok text => return CompilationUnit.ofFile path text
  | .error problem => return .error (.unreadable path problem)

end

end TypedRoutes
