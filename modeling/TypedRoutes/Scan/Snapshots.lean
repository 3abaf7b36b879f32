import TypedRoutes.Disk.Access

/-!
# Finding snapshots

Snapshots are recognized by the end of their file names. A scan collects those that a walk of a
directory yields and that are neither inside the directory of the results nor rejected by the
filter, in the order of the steps of their paths.
-/

namespace TypedRoutes

/-- How the names of snapshots end. -/
def snapshotSuffix : List Char := ".nestia.json".toList

/-- Whether a name is that of a snapshot: something stands in front of the suffix. -/
def isSnapshotName (name : List Char) : Bool :=
  snapshotSuffix.length < name.length && snapshotSuffix.isSuffixOf name

/-- Whether a path is that of a snapshot. -/
def DiskPath.isSnapshot (path : DiskPath) : Bool :=
  path.fileName?.any isSnapshotName

/-- What stands in front of the suffix in the name of a snapshot. -/
def nameStem? (name : List Char) : Option (List Char) :=
  if snapshotSuffix.isSuffixOf name then
    match name.take (name.length - snapshotSuffix.length) with
    | [] => none
    | stem => some stem
  else none

/-- What stands in front of the suffix in the name of the snapshot at a path. -/
def DiskPath.snapshotStem? (path : DiskPath) : Option (List Char) :=
  path.fileName?.bind nameStem?

/-- A snapshot as it was found: its path, its path from the scanned directory, and its text. -/
structure SnapshotFile where
  path : DiskPath
  relative : DiskPath
  content : String
  deriving DecidableEq, Repr, Inhabited

/-- Whether a snapshot comes before another one or is the same, by the steps of their paths from the
scanned directory. -/
def SnapshotFile.precedes (a b : SnapshotFile) : Bool :=
  Place.precedes a.relative.names b.relative.names

/-- What to scan. -/
structure ScanRequest where
  root : DiskPath
  /-- Whether the lists of repositories count. -/
  repositories : Bool := true
  /-- Only files whose path from the root is selected are wanted. -/
  filter? : Option (DiskPath → Bool) := none
  /-- Nothing inside this directory is wanted. -/
  excluded? : Option DiskPath := none

/-- Why a scan fails. -/
inductive ScanProblem where
  | rootMissing (root : DiskPath)
  | noSnapshots (root : DiskPath)
  | badPattern (pattern message : String)
  | walk (message : String)
  | unreadable (path : DiskPath) (problem : DiskProblem)
  deriving DecidableEq, Repr

/-- The failure of a scan in words. -/
def ScanProblem.message : ScanProblem → String
  | .rootMissing root => "Directory not found: " ++ root.text
  | .noSnapshots root => "No snapshot files found in: " ++ root.text
  | .badPattern pattern message => "Invalid filter pattern '" ++ pattern ++ "': " ++ message
  | .walk message => "Walk error: " ++ message
  | .unreadable path problem =>
    "IO error scanning " ++ path.text ++ ": " ++ problem.message

namespace ScanRequest

/-- The path of an entry at or below the scanned root. -/
def pathOf (request : ScanRequest) (file : Place) : DiskPath :=
  if file.isEmpty then request.root else request.root.join file.relativePath

section

variable {m : Type → Type} [Monad m] [MonadDisk m]

/-- The place of the excluded directory, if there is one. -/
def excludedPlace? (request : ScanRequest) : m (Option Place) :=
  match request.excluded? with
  | none => return none
  | some path => MonadDisk.place? path

/-- Whether an entry is wanted: it is a file that is named like a snapshot and stands outside of the
excluded directory, if there is one, and the filter selects it. -/
def wants (request : ScanRequest) (excluded? : Option Place) (file : Place) : m Bool := do
  let path := request.pathOf file
  let kind? ← MonadDisk.kind? path
  let place? ← MonadDisk.place? path
  return kind? == some .file && path.isSnapshot &&
    !excluded?.any (fun directory => place?.any directory.isPrefixOf) &&
    request.filter?.all (fun selects => selects file.relativePath)

/-- Reads a file that was found. -/
def readSnapshot (request : ScanRequest) (file : Place) : m (Except ScanProblem SnapshotFile) := do
  let path := request.pathOf file
  match ← MonadDisk.read path with
  | .ok content => return .ok ⟨path, file.relativePath, content⟩
  | .error problem => return .error (.unreadable path problem)

/-- Reads what is wanted of the entries that a walk yields. The first problem ends it, be it one of
the walk or a file that cannot be read. -/
def collect (request : ScanRequest) (excluded? : Option Place) :
    List (Except String Place) → m (Except ScanProblem (List SnapshotFile))
  | [] => return .ok []
  | .error message :: _ => return .error (.walk message)
  | .ok file :: rest => do
    if ← request.wants excluded? file then
      match ← request.readSnapshot file with
      | .error problem => return .error problem
      | .ok snapshot => return (← request.collect excluded? rest).map (snapshot :: ·)
    else request.collect excluded? rest

variable [MonadWalk m]

/-- Finds the snapshots. There has to be at least one. -/
def scan (request : ScanRequest) : m (Except ScanProblem (List SnapshotFile)) := do
  if ← MonadDisk.hasEntry request.root then
    let excluded? ← request.excludedPlace?
    match ← request.collect excluded? (← MonadWalk.walk request.root request.repositories) with
    | .error problem => return .error problem
    | .ok [] => return .error (.noSnapshots request.root)
    | .ok snapshots => return .ok (snapshots.mergeSort SnapshotFile.precedes)
  else return .error (.rootMissing request.root)

/-- Finds the snapshots, of which there may be none. -/
def scanAllowingNone (request : ScanRequest) : m (Except ScanProblem (List SnapshotFile)) := do
  match ← request.scan with
  | .error (.noSnapshots _) => return .ok []
  | result => return result

end

end ScanRequest

end TypedRoutes
