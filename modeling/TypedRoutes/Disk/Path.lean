import TypedRoutes.Text.Search

/-!
# Paths

A path is a text whose steps are separated by slashes. Empty steps and dots say nothing, except for
a dot in front of all other steps; a slash in front of everything starts at the root directory.
Paths are joined and taken apart as texts, so that what they are called in messages is what was
given.
-/

namespace TypedRoutes

/-- A path as it is written. -/
structure DiskPath where
  chars : List Char
  deriving DecidableEq, Repr, Inhabited

/-- What a step of a path does. -/
inductive PathStep where
  | root
  | here
  | up
  | name (name : List Char)
  deriving DecidableEq, Repr

/-- Whether a piece between slashes says nothing. -/
def isSilent (piece : List Char) : Bool :=
  piece == [] || piece == ['.']

namespace DiskPath

/-- The path with the given text. -/
def ofString (text : String) : DiskPath := ⟨text.toList⟩

/-- The text of a path. -/
def text (path : DiskPath) : String := String.ofList path.chars

/-- Whether a path starts at the root directory. -/
def isRooted (path : DiskPath) : Bool :=
  path.chars.head? == some '/'

/-- The step of a piece that says something. -/
def pieceStep (piece : List Char) : PathStep :=
  if piece = ['.', '.'] then .up else .name piece

/-- The steps of pieces behind the first one. -/
def pieceSteps (pieces : List (List Char)) : List PathStep :=
  (pieces.filter fun piece => !isSilent piece).map pieceStep

/-- The steps of a path. -/
def steps (path : DiskPath) : List PathStep :=
  match path.chars with
  | '/' :: rest => .root :: pieceSteps (pieces '/' rest)
  | cs =>
    match pieces '/' cs with
    | ['.'] :: rest => .here :: pieceSteps rest
    | all => pieceSteps all

/-- The last step of a path if it is a name. -/
def fileName? (path : DiskPath) : Option (List Char) :=
  match path.steps.getLast? with
  | some (.name name) => some name
  | _ => none

/-- One path behind another. A path that starts at the root stands for itself; otherwise there is
one slash between the two, also when nothing follows. -/
def join (base tail : DiskPath) : DiskPath :=
  if tail.isRooted || base.chars.isEmpty then tail
  else if base.chars.getLast? == some '/' then ⟨base.chars ++ tail.chars⟩
  else ⟨base.chars ++ '/' :: tail.chars⟩

/-- The pieces without the silent ones at their end. -/
def trimSilent (pieces : List (List Char)) : List (List Char) :=
  (pieces.reverse.dropWhile isSilent).reverse

/-- The pieces without the last one that says something, if one does. -/
def dropStep? (pieces : List (List Char)) : Option (List (List Char)) :=
  match trimSilent pieces with
  | [] => none
  | kept => some (trimSilent kept.dropLast)

/-- The path without its last step. The root and the empty path have no parent; a single step has
the empty path as its parent. -/
def parent? (path : DiskPath) : Option DiskPath :=
  match path.chars with
  | '/' :: rest => (dropStep? (pieces '/' rest)).map fun kept => ⟨'/' :: slashed kept⟩
  | cs =>
    match pieces '/' cs with
    | [] => none
    | first :: rest =>
      match dropStep? rest with
      | some kept => some ⟨slashed (first :: kept)⟩
      | none => if first.isEmpty then none else some ⟨[]⟩

/-- A path and what is left of it by taking away its last step again and again, a number of times at
most. The empty path is left out. -/
def prefixesWithin : Nat → DiskPath → List DiskPath
  | 0, _ => []
  | count + 1, path =>
    if path.chars.isEmpty then []
    else path :: (path.parent?.elim [] (prefixesWithin count))

/-- A path and the paths in front of its steps, the longest one first. Every one of them is shorter
than the one before, so there are no more of them than characters. -/
def prefixes (path : DiskPath) : List DiskPath :=
  prefixesWithin path.chars.length path

end DiskPath

end TypedRoutes
