import TypedRoutes.Source.Snapshot

/-!
# Source files

The parts of a source file that carry decorators: its classes and their methods. A unit pairs a
file with the recorded answers about it.
-/

namespace TypedRoutes

/-- A method with its decorators and, if known, its return type. -/
structure MethodDeclaration where
  name : String
  decorators : List Decorator := []
  returnType? : Option Ty := none
  deriving Inhabited

/-- A class with its methods in source order. -/
structure ClassDeclaration where
  name : String
  methods : List MethodDeclaration := []
  deriving Inhabited

/-- A source file with its classes in source order. -/
structure SourceFile where
  fileName : ByteText
  classes : List ClassDeclaration := []
  deriving Inhabited

/-- A source file together with what was recorded about it. -/
structure CompilationUnit where
  source : SourceFile
  types : Snapshot := {}
  deriving Inhabited

/-- Every decorator of a file in source order. -/
def SourceFile.decorators (file : SourceFile) : List Decorator :=
  file.classes.flatMap fun declaration =>
    declaration.methods.flatMap MethodDeclaration.decorators

end TypedRoutes
