import TypedRoutes.Route.Decision
import TypedRoutes.Source.Basic

/-!
# Augmenting methods and files

Every decorator of a file is decided on, in source order, and everything but the decorators stays
as it is. The report has one entry per decorator.
-/

namespace TypedRoutes

/-- A method after its decorators were decided on, with one outcome per decorator. -/
structure AugmentedMethod where
  method : MethodDeclaration
  outcomes : List Outcome

/-- Augments the decorators of a method. Without a return type none of them is touched. -/
def Project.augmentMethod (project : Project) (method : MethodDeclaration) : AugmentedMethod :=
  match method.returnType? with
  | none => ⟨method, method.decorators.map fun _ => .skipped .missingReturnType⟩
  | some type =>
    let decided := method.decorators.map (project.augment type.response)
    ⟨{ method with decorators := decided.map Prod.fst }, decided.map Prod.snd⟩

/-- What happened to one decorator; the decorator is printed as it was before. -/
structure ReportEntry where
  className : String
  methodName : String
  decorator : String
  outcome : Outcome
  deriving DecidableEq, Repr, Inhabited

/-- What happened to the decorators of a file. -/
structure Report where
  fileName : ByteText
  entries : List ReportEntry
  deriving DecidableEq, Repr, Inhabited

namespace Report

/-- The number of decorators that received an artifact. -/
def augmented (report : Report) : Nat :=
  report.entries.countP fun entry => entry.outcome = .augmented

/-- The number of decorators that were left as they are. -/
def skipped (report : Report) : Nat :=
  report.entries.length - report.augmented

/-- The entries that were skipped for a reason. -/
def skippedFor (report : Report) (reason : SkipReason) : List ReportEntry :=
  report.entries.filter fun entry => entry.outcome = .skipped reason

/-- Whether any decorator received an artifact. -/
def isChanged (report : Report) : Bool := 0 < report.augmented

end Report

/-- A file after its decorators were decided on. -/
structure AugmentedFile where
  file : SourceFile
  report : Report

namespace Project

/-- The report entries of a method. -/
def methodEntries (project : Project) (className : String) (method : MethodDeclaration) :
    List ReportEntry :=
  (method.decorators.zip (project.augmentMethod method).outcomes).map fun decided =>
    ⟨className, method.name, decided.1.print {}, decided.2⟩

/-- Augments the methods of a class. -/
def augmentClass (project : Project) (declaration : ClassDeclaration) : ClassDeclaration :=
  { declaration with
    methods := declaration.methods.map fun method => (project.augmentMethod method).method }

/-- Augments a file and reports on each of its decorators. -/
def augmentFile (project : Project) (file : SourceFile) : AugmentedFile where
  file := { file with classes := file.classes.map project.augmentClass }
  report := ⟨file.fileName, file.classes.flatMap fun declaration =>
    declaration.methods.flatMap (project.methodEntries declaration.name)⟩

end Project

end TypedRoutes
