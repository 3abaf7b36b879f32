import TypedRoutes.Disk.Path
import TypedRoutes.Text.Bytes

/-!
# What is asked of a disk

Commands read and write files through a few questions and requests, so that the same command runs
on a real disk and on a disk that is only described. Symbolic links do not occur.
-/

namespace TypedRoutes

/-- The names that lead from the root directory to an entry. -/
abbrev Place := List String

/-- Whether a place comes before another one or is the same: the first names that differ decide, and
what stands at a place comes before what is below it. -/
def Place.precedes : Place → Place → Bool
  | [], _ => true
  | _ :: _, [] => false
  | a :: rest, b :: others => if a = b then Place.precedes rest others else decide (a < b)

/-- The path of a place from the root directory. -/
def Place.path (place : Place) : DiskPath :=
  ⟨'/' :: slashed (place.map String.toList)⟩

/-- The path of a place from the directory it is relative to. -/
def Place.relativePath (place : Place) : DiskPath :=
  ⟨slashed (place.map String.toList)⟩

/-- The names among pieces of a path. -/
def namesOf (segments : List (List Char)) : Place :=
  (segments.filter fun piece => !isSilent piece).map String.ofList

/-- Everything between the slashes of a path. -/
def DiskPath.allPieces (path : DiskPath) : List (List Char) := pieces '/' path.chars

/-- The names on a path. -/
def DiskPath.names (path : DiskPath) : Place := namesOf path.allPieces

/-- The kinds of entries. -/
inductive EntryKind where
  | file
  | directory
  deriving DecidableEq, Repr

/-- Why a request is refused. -/
inductive DiskProblem where
  | missing
  | taken
  | notADirectory
  | isADirectory
  | tooLong
  | zeroCharacter
  | undecodable
  | other (text : String)
  deriving DecidableEq, Repr

/-- A problem in words. -/
def DiskProblem.message : DiskProblem → String
  | .missing => "No such file or directory (os error 2)"
  | .taken => "File exists (os error 17)"
  | .notADirectory => "Not a directory (os error 20)"
  | .isADirectory => "Is a directory (os error 21)"
  | .tooLong => "File name too long (os error 36)"
  | .zeroCharacter => "file name contained an unexpected NUL byte"
  | .undecodable => "stream did not contain valid UTF-8"
  | .other text => text

/-- The content of a file as a text. -/
def ByteText.decode : ByteText → Except DiskProblem String
  | .text value => .ok value
  | .malformed _ _ => .error .undecodable

/-- A name has at most this many bytes. -/
def nameLimit : Nat := 255

/-- A path has at most this many bytes. -/
def pathLimit : Nat := 4095

/-- The number of bytes of a text. -/
def byteCount (cs : List Char) : Nat := (String.ofList cs).utf8ByteSize

/-- What keeps a path from being looked up at all. -/
def DiskPath.flaw? (path : DiskPath) : Option DiskProblem :=
  if path.chars.contains '\x00' then some .zeroCharacter
  else if path.chars.isEmpty then some .missing
  else if pathLimit < byteCount path.chars then some .tooLong
  else none

/-- A computation that has access to a disk. -/
class MonadDisk (m : Type → Type) where
  /-- What stands at a path, if anything does. -/
  kind? : DiskPath → m (Option EntryKind)
  /-- The place of what stands at a path. -/
  place? : DiskPath → m (Option Place)
  /-- The content of a file, which has to be a text. -/
  read : DiskPath → m (Except DiskProblem String)
  /-- Gives a file its content; a file that is missing is created. -/
  write : DiskPath → String → m (Except DiskProblem Unit)
  /-- Creates the directories that are missing on the way to a path, and the path itself. -/
  makeDirectories : DiskPath → m (Except DiskProblem Unit)

/-- A computation that can walk through the entries at and below a path. Entries are known by what
leads to them from the path; where the walk cannot go on it says so instead. -/
class MonadWalk (m : Type → Type) where
  /-- What a walk yields; the lists of repositories count where they are wanted. -/
  walk : DiskPath → Bool → m (List (Except String Place))

namespace MonadDisk

variable {m : Type → Type} [Monad m] [MonadDisk m]

/-- Whether anything stands at a path. -/
def hasEntry (path : DiskPath) : m Bool := do
  return (← kind? path).isSome

end MonadDisk

end TypedRoutes
