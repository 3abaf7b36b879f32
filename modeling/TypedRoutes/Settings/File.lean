import TypedRoutes.Scan.Pattern
import TypedRoutes.Settings.Basic
import TypedRoutes.Text.Lines
import TypedRoutes.Toml.Reader

/-!
# The settings file

Settings are stored as a TOML document with four sections. Whatever a section leaves out keeps its
usual value, and unknown keys say nothing. A file that does not exist leaves all settings as they
are.
-/

namespace TypedRoutes

/-- Why settings cannot be taken from a file. -/
inductive SettingsProblem where
  | notToml (origin : DiskPath)
  | badFilter (problem : PatternProblem)
  | unreadable (path : DiskPath) (problem : DiskProblem)
  deriving DecidableEq, Repr

/-- What is wrong with a settings file, in words. -/
def SettingsProblem.message : SettingsProblem → String
  | .notToml origin => "Invalid TOML in " ++ origin.text
  | .badFilter problem =>
    "Invalid configuration value for 'input.filter': " ++ problem.message
  | .unreadable path problem =>
    "Failed to read config " ++ path.text ++ ": " ++ problem.message

namespace Toml

/-- Reads a text. -/
def text? : Toml → Option String
  | .text value => some value
  | _ => none

/-- Reads a path. -/
def path? (value : Toml) : Option DiskPath :=
  value.text?.map .ofString

/-- Reads a value that is there whenever its field is. -/
def present? {α : Type} (read : Toml → Option α) (value : Toml) : Option (Option α) :=
  (read value).map some

/-- Whether a value holds nothing. -/
def isEmptyContent : Toml → Bool
  | .table [] => true
  | .array [] => true
  | _ => false

/-- Reads one of several names; a table whose only member is a name with nothing in it counts as
the name. -/
def choice? {α : Type} (ofName? : String → Option α) : Toml → Option α
  | .text name => ofName? name
  | .table [(name, content)] => if content.isEmptyContent then ofName? name else none
  | _ => none

/-- Reads a field, or gives the value for when it is left out. -/
def fieldOr {α : Type} (absent : α) (read : Toml → Option α) (value? : Option Toml) : Option α :=
  match value? with
  | none => some absent
  | some value => read value

end Toml

namespace Settings

/-- Changes settings by the fields of a section. -/
abbrev SectionReader := Settings → (String → Option Toml) → Option Settings

/-- Where snapshots are read from. -/
def readInput : SectionReader := fun settings fields => do
  let input ← Toml.fieldOr settings.input Toml.path? (fields "dir")
  let filter? ← Toml.fieldOr settings.filter? (Toml.present? Toml.text?) (fields "filter")
  return { settings with input, filter? }

/-- Where results are written, and how. -/
def readOutput : SectionReader := fun settings fields => do
  let output ← Toml.fieldOr settings.output Toml.path? (fields "dir")
  let format ← Toml.fieldOr settings.format (Toml.choice? OutputFormat.ofName?) (fields "format")
  return { settings with output, format }

/-- How artifacts are made. -/
def readTransform : SectionReader := fun settings fields => do
  let mode ← Toml.fieldOr settings.mode (Toml.choice? Mode.ofName?) (fields "stringify")
  let packageRoot? ← Toml.fieldOr settings.packageRoot? (Toml.present? Toml.path?)
    (fields "package_root")
  return { settings with mode, packageRoot? }

/-- What is logged. -/
def readLog : SectionReader := fun settings fields => do
  let logLevel ← Toml.fieldOr settings.logLevel Toml.text? (fields "level")
  return { settings with logLevel }

/-- Reads a section whose fields have the given names; one that is left out changes nothing. -/
def readSection (names : List String) (read : SectionReader) (settings : Settings)
    (value? : Option Toml) : Option Settings :=
  match value? with
  | none => some settings
  | some value => do read settings (← value.fields? names)

/-- The settings of a document. -/
def ofToml? (document : Toml) : Option Settings := do
  let fields ← document.fields? ["input", "output", "transform", "log"]
  let settings ← readSection ["dir", "filter"] readInput {} (fields "input")
  let settings ← readSection ["dir", "format"] readOutput settings (fields "output")
  let settings ← readSection ["stringify", "package_root"] readTransform settings
    (fields "transform")
  readSection ["level"] readLog settings (fields "log")

/-- The settings that a text holds; `origin` is where the text comes from. The filter has to be a
pattern. -/
def ofText (text : String) (origin : DiskPath) : Except SettingsProblem Settings := do
  match (Toml.ofText? text).bind ofToml? with
  | none => .error (.notToml origin)
  | some settings =>
    match settings.filter?.map Pattern.ofString with
    | some (.error problem) => .error (.badFilter problem)
    | _ => .ok settings

/-- The name of the settings file. -/
def fileName : String := "nestia-transform.toml"

/-- What the settings file holds at first. -/
def initialLines : List String :=
  ["# nestia-transform configuration file",
    "",
    "[input]",
    "# Directory scanned for *.nestia.json type snapshots",
    "dir = \".\"",
    "",
    "# Only transform snapshots whose relative path matches this glob",
    "# filter = \"controllers/**\"",
    "",
    "[output]",
    "# Output directory",
    "dir = \"./transformed\"",
    "",
    "# json: rewritten snapshots, typescript: rewritten decorators as source",
    "format = \"json\"",
    "",
    "[transform]",
    "# Closure carried by generated artifacts (assert, is, validate, stringify)",
    "stringify = \"assert\"",
    "",
    "# Root of the local decorator sources (<root>/src/decorators)",
    "# package_root = \".\"",
    "",
    "[log]",
    "# Log filter used when RUST_LOG is not set",
    "level = \"warn\""]

/-- The settings file at first. -/
def initialText : String := unlines initialLines

variable {m : Type → Type} [Monad m] [MonadDisk m]

/-- Loads the settings from a file; a file that does not exist says nothing. -/
def load (path : DiskPath) : m (Except SettingsProblem Settings) := do
  if ← MonadDisk.hasEntry path then
    match ← MonadDisk.read path with
    | .ok text => return ofText text path
    | .error problem => return .error (.unreadable path problem)
  else return .ok {}

end Settings

end TypedRoutes
