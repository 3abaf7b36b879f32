import TypedRoutes.Disk.Access

/-!
# Writing results

A file whose content would not change is left alone. A dry run writes nothing and tells what would
be written.
-/

namespace TypedRoutes

/-- Why a result cannot be written. -/
inductive WriteProblem where
  | directory (path : DiskPath) (problem : DiskProblem)
  | file (path : DiskPath) (problem : DiskProblem)
  deriving DecidableEq, Repr

/-- What went wrong with writing, in words. -/
def WriteProblem.message : WriteProblem → String
  | .directory path problem =>
    "Failed to create directory " ++ path.text ++ ": " ++ problem.message
  | .file path problem => "Failed to write file " ++ path.text ++ ": " ++ problem.message

/-- What became of a result. -/
inductive WriteOutcome where
  | written (path : DiskPath) (bytes : Nat)
  | unchanged (path : DiskPath)
  | preview (path : DiskPath) (content : String)
  deriving DecidableEq, Repr

namespace WriteOutcome

/-- Where the result belongs. -/
def path : WriteOutcome → DiskPath
  | .written path _ | .unchanged path | .preview path _ => path

/-- Whether the file was written. -/
def isWritten : WriteOutcome → Bool
  | .written _ _ => true
  | _ => false

/-- The number of bytes that were written. -/
def bytes : WriteOutcome → Nat
  | .written _ bytes => bytes
  | _ => 0

end WriteOutcome

section

variable {m : Type → Type} [Monad m] [MonadDisk m]

/-- Whether the file at a path already holds a text. -/
def holdsContent (path : DiskPath) (content : String) : m Bool := do
  match ← MonadDisk.read path with
  | .ok existing => return existing == content
  | .error _ => return false

/-- Makes the directory that a file belongs in if nothing stands there. -/
def prepareDirectory (path : DiskPath) : m (Except WriteProblem Unit) := do
  match path.parent? with
  | none => return .ok ()
  | some parent =>
    if ← MonadDisk.hasEntry parent then return .ok ()
    else return (← MonadDisk.makeDirectories parent).mapError (.directory parent)

/-- Writes a result. -/
def writeResult (dryRun : Bool) (path : DiskPath) (content : String) :
    m (Except WriteProblem WriteOutcome) := do
  if dryRun then return .ok (.preview path content)
  else if ← holdsContent path content then return .ok (.unchanged path)
  else
    match ← prepareDirectory path with
    | .error problem => return .error problem
    | .ok () =>
      match ← MonadDisk.write path content with
      | .ok () => return .ok (.written path content.utf8ByteSize)
      | .error problem => return .error (.file path problem)

end

end TypedRoutes
