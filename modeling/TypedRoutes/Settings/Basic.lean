import TypedRoutes.Artifact.Mode
import TypedRoutes.Disk.Access
import TypedRoutes.Route.AllowList

/-!
# Settings

What a run of the program is told: where snapshots are, where results go and in which form, and
how artifacts are made. Settings come from a file, and the command line overrides them.
-/

namespace TypedRoutes

/-- What is written for a snapshot. -/
inductive OutputFormat where
  /-- The augmented unit, itself a snapshot. -/
  | json
  /-- The decorators of the augmented unit as program text. -/
  | typescript
  deriving DecidableEq, Repr, Inhabited

/-- The name of a format. -/
def OutputFormat.name : OutputFormat → String
  | .json => "json"
  | .typescript => "typescript"

/-- All formats. -/
def OutputFormat.all : List OutputFormat := [.json, .typescript]

/-- The format with the given name. -/
def OutputFormat.ofName? (name : String) : Option OutputFormat :=
  OutputFormat.all.find? fun format => format.name == name

/-- What a run is told. -/
structure Settings where
  /-- The directory that is scanned. -/
  input : DiskPath := .ofString "."
  /-- Only snapshots whose path from there matches are taken. -/
  filter? : Option String := none
  /-- The directory of the results. -/
  output : DiskPath := .ofString "./transformed"
  format : OutputFormat := .json
  mode : Mode := .assert
  /-- The root of the decorator sources, the working directory unless given. -/
  packageRoot? : Option DiskPath := none
  logLevel : String := "warn"
  deriving DecidableEq, Repr, Inhabited

/-- What the command line says about settings. -/
structure Overrides where
  input? : Option DiskPath := none
  filter? : Option String := none
  output? : Option DiskPath := none
  format? : Option OutputFormat := none
  mode? : Option Mode := none
  packageRoot? : Option DiskPath := none
  deriving DecidableEq, Repr, Inhabited

namespace Settings

/-- The settings with what the command line says in place of what it speaks about. -/
def override (settings : Settings) (overrides : Overrides) : Settings where
  input := overrides.input?.getD settings.input
  filter? := overrides.filter?.or settings.filter?
  output := overrides.output?.getD settings.output
  format := overrides.format?.getD settings.format
  mode := overrides.mode?.getD settings.mode
  packageRoot? := overrides.packageRoot?.or settings.packageRoot?
  logLevel := settings.logLevel

/-- The declaration sites for a run that starts in the given directory. -/
def allowList (settings : Settings) (workingDirectory : String) : AllowList :=
  .ofRoot workingDirectory ((settings.packageRoot?.map DiskPath.text).getD workingDirectory)

end Settings

end TypedRoutes
