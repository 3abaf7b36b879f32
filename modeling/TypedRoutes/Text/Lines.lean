/-!
# Lines

Texts made of lines that each end with a line feed.
-/

namespace TypedRoutes

/-- Lines with a line feed behind each of them. -/
def unlines (lines : List String) : String :=
  String.join (lines.map (· ++ "\n"))

end TypedRoutes
