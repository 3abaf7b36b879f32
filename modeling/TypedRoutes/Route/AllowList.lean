import TypedRoutes.Route.Location

/-!
# Declaration sites

The files whose decorators receive an artifact. A file of the installed package is recognized by
the end of its path, wherever it is installed; a source file of the decorators has to stand at its
exact place under the package root.
-/

namespace TypedRoutes

/-- The classes whose factories take an artifact as their last argument. -/
def markerClasses : List String := ["EncryptedRoute", "TypedRoute"]

/-- The directory of the declarations in the installed package. -/
def libraryDirectory : String := "node_modules/@nestia/core/lib/decorators"

/-- The directory of the decorator sources under the package root. -/
def sourceDirectory : String := "src/decorators"

/-- The declaration sites of a package. -/
structure AllowList where
  root : List Char
  deriving DecidableEq, Repr, Inhabited

namespace AllowList

/-- The declaration sites of a package root; a relative root starts at the working directory. -/
def ofRoot (workingDirectory root : String) : AllowList :=
  let path := toSlashes root.toList
  if isAnchored path then ⟨normalize path⟩
  else ⟨normalize (toSlashes workingDirectory.toList ++ '/' :: path)⟩

/-- The ends of library paths. -/
def libraryPaths : List (List Char) :=
  markerClasses.map fun marker => (libraryDirectory ++ "/" ++ marker ++ ".d.ts").toList

/-- The exact source paths. -/
def sourcePaths (allowList : AllowList) : List (List Char) :=
  markerClasses.map fun marker =>
    normalize (allowList.root ++ ("/" ++ sourceDirectory ++ "/" ++ marker ++ ".ts").toList)

/-- The resolved form of a file path; a relative path starts at the package root. -/
def resolve (allowList : AllowList) (file : String) : List Char :=
  let path := toSlashes file.toList
  if isAnchored path then normalize path
  else normalize (allowList.root ++ '/' :: path)

/-- Whether decorators declared in a file receive an artifact. -/
def contains (allowList : AllowList) (file : String) : Bool :=
  let location := allowList.resolve file
  libraryPaths.any (occursIn · location) || allowList.sourcePaths.contains location

end AllowList

end TypedRoutes
