import TypedRoutes.Text.Search

/-!
# Locations

The canonical form of a path for comparison: backslashes count as separators, and empty segments,
single dots and double dots are resolved without looking at any disk. A location is anchored at the
root directory, at a drive, or nowhere.
-/

namespace TypedRoutes

/-- What a path starts from. -/
inductive Anchor where
  | nowhere
  | root
  | drive (letter : Char)
  deriving DecidableEq, Repr, Inhabited

/-- A path in resolved form. -/
structure Location where
  anchor : Anchor
  segments : List (List Char)
  deriving DecidableEq, Repr, Inhabited

/-- Both kinds of slash separate segments. -/
def toSlashes (path : List Char) : List Char :=
  path.map fun c => if c = '\\' then '/' else c

/-- The anchor of a slashed path and what stands behind it. -/
def splitAnchor : List Char → Anchor × List Char
  | '/' :: rest => (.root, rest)
  | letter :: ':' :: rest =>
    if letter.isAlpha then (.drive letter, rest) else (.nowhere, letter :: ':' :: rest)
  | path => (.nowhere, path)

/-- Whether a slashed path is anchored. -/
def isAnchored (path : List Char) : Bool :=
  (splitAnchor path).1 != .nowhere

/-- Takes one more segment; the segments taken so far stand last first. Above an anchor there is
nothing to go up to. -/
def pushSegment (anchored : Bool) (taken : List (List Char)) (segment : List Char) :
    List (List Char) :=
  if segment = [] ∨ segment = ['.'] then taken
  else if segment = ['.', '.'] then
    match taken with
    | [] => if anchored then [] else [segment]
    | last :: rest =>
      if last = ['.', '.'] then (if anchored then taken else segment :: taken) else rest
  else segment :: taken

/-- The resolved form of a slashed path. -/
def Location.ofSlashed (path : List Char) : Location :=
  let (anchor, rest) := splitAnchor path
  ⟨anchor, ((pieces '/' rest).foldl (pushSegment (anchor != .nowhere)) []).reverse⟩

/-- The text of an anchor with the slash behind it. -/
def Anchor.text : Anchor → List Char
  | .nowhere => []
  | .root => ['/']
  | .drive letter => [letter, ':', '/']

/-- The text of a location. -/
def Location.text (location : Location) : List Char :=
  location.anchor.text ++ slashed location.segments

/-- The resolved text of a slashed path. -/
def normalize (path : List Char) : List Char :=
  (Location.ofSlashed path).text

end TypedRoutes
