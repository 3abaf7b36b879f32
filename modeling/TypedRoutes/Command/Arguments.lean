import TypedRoutes.Settings.File

/-!
# The command line

A command is named by the first argument; the others are its options. Options have a long name,
some also a short one of a single letter, and each may be given once. The value of an option stands
behind an equals sign, directly behind the short name, or in the next argument. Arguments are read
from left to right, and the first one that cannot be understood or asks for help decides.
-/

namespace TypedRoutes

/-- An option of a command. -/
structure OptionForm where
  long : String
  short? : Option Char := none
  /-- The values that the option takes; a switch takes none. -/
  accepts? : Option (String → Bool) := none

/-- Why no command is run. -/
inductive Refusal where
  | help
  | version
  | misuse
  deriving DecidableEq, Repr

/-- The options that were given, with their values; the value of a switch is empty. -/
abbrev GivenOptions := List (String × String)

namespace OptionForm

/-- Any text is a value. -/
def anyText (long : String) (short? : Option Char := none) : OptionForm :=
  ⟨long, short?, some fun _ => true⟩

/-- Any text but the empty one is a value. -/
def path (long : String) (short? : Option Char := none) : OptionForm :=
  ⟨long, short?, some fun text => !text.isEmpty⟩

/-- The names of some values are values. -/
def oneOf {α : Type} (long : String) (ofName? : String → Option α) : OptionForm :=
  ⟨long, none, some fun text => (ofName? text).isSome⟩

/-- An option without a value. -/
def switch (long : String) (short? : Option Char := none) : OptionForm :=
  ⟨long, short?, none⟩

end OptionForm

namespace GivenOptions

/-- Adds an option that was not given before. -/
def add (given : GivenOptions) (form : OptionForm) (value : String) :
    Except Refusal GivenOptions :=
  if (given.lookup form.long).isSome then .error .misuse
  else .ok (given ++ [(form.long, value)])

/-- Adds an option with a value that it accepts. -/
def addValue (given : GivenOptions) (form : OptionForm) (accepts : String → Bool)
    (value : List Char) : Except Refusal GivenOptions :=
  let text := String.ofList value
  if accepts text then given.add form text else .error .misuse

end GivenOptions

/-- Whether an argument stands in the place of an option and not of a value. -/
def looksLikeOption : List Char → Bool
  | '-' :: _ :: _ => true
  | _ => false

/-- What an argument leaves to be done: nothing, or an option that takes the next argument. -/
inductive Awaiting where
  | nothing
  | value (form : OptionForm) (accepts : String → Bool)

/-- The value behind an equals sign, which may be left out behind a short name. -/
def attachedValue : List Char → List Char
  | '=' :: value => value
  | value => value

/-- Reads the letters behind a hyphen: switches, of which the last one may be an option with its
value. -/
def readLetters (forms : List OptionForm) (given : GivenOptions) :
    List Char → Except Refusal (GivenOptions × Awaiting)
  | [] => .ok (given, .nothing)
  | letter :: rest =>
    if letter = 'h' then .error .help
    else match forms.find? fun form => form.short? == some letter with
      | none => .error .misuse
      | some form =>
        match form.accepts?, rest with
        | none, rest => do readLetters forms (← given.add form "") rest
        | some accepts, [] => .ok (given, .value form accepts)
        | some accepts, rest => do
          return (← given.addValue form accepts (attachedValue rest), .nothing)

/-- Reads the name behind two hyphens, with the value behind its equals sign. -/
def readName (forms : List OptionForm) (given : GivenOptions) (chars : List Char) :
    Except Refusal (GivenOptions × Awaiting) :=
  let name := String.ofList (chars.takeWhile (· != '='))
  let value? := (chars.dropWhile (· != '=')).tail?
  if name = "help" then .error (if value?.isNone then .help else .misuse)
  else match forms.find? fun form => form.long == name with
    | none => .error .misuse
    | some form =>
      match form.accepts?, value? with
      | none, none => do return (← given.add form "", .nothing)
      | none, some _ => .error .misuse
      | some accepts, none => .ok (given, .value form accepts)
      | some accepts, some value => do return (← given.addValue form accepts value, .nothing)

/-- Reads an argument that looks like an option. -/
def readOption (forms : List OptionForm) (given : GivenOptions) :
    List Char → Except Refusal (GivenOptions × Awaiting)
  | '-' :: '-' :: chars => readName forms given chars
  | '-' :: letters => readLetters forms given letters
  | _ => .error .misuse

/-- Reads the options of a command. Two hyphens alone may stand at the end. -/
def readOptions (forms : List OptionForm) (given : GivenOptions) (awaiting : Awaiting) :
    List String → Except Refusal GivenOptions
  | [] =>
    match awaiting with
    | .nothing => .ok given
    | .value _ _ => .error .misuse
  | argument :: rest =>
    match awaiting with
    | .value form accepts => do
      if looksLikeOption argument.toList then .error .misuse
      else readOptions forms (← given.addValue form accepts argument.toList) .nothing rest
    | .nothing => do
      if argument = "--" then
        if rest.isEmpty then return given else .error .misuse
      else if looksLikeOption argument.toList then
        let (given, awaiting) ← readOption forms given argument.toList
        readOptions forms given awaiting rest
      else .error .misuse

/-- A command with what it is told. -/
inductive Command where
  | transform (settingsFile? : Option DiskPath) (overrides : Overrides) (watch dryRun : Bool)
  | check (settingsFile? : Option DiskPath) (overrides : Overrides)
  | init (file : DiskPath) (force : Bool)
  deriving DecidableEq, Repr

namespace Command

/-- The options of the command that augments snapshots. -/
def transformForms : List OptionForm :=
  [.path "input" (some 'i'), .path "output" (some 'o'), .oneOf "stringify" Mode.ofName?,
    .oneOf "format" OutputFormat.ofName?, .path "package-root", .anyText "filter",
    .switch "dry-run", .switch "watch" (some 'w'), .path "config" (some 'c')]

/-- The options of the command that checks snapshots. -/
def checkForms : List OptionForm :=
  [.path "input" (some 'i'), .path "package-root", .path "config" (some 'c')]

/-- The options of the command that writes a settings file. -/
def initForms : List OptionForm :=
  [.path "output" (some 'o'), .switch "force"]

/-- What the options say about the settings. -/
def overridesOf (given : GivenOptions) : Overrides where
  input? := (given.lookup "input").map .ofString
  filter? := given.lookup "filter"
  output? := (given.lookup "output").map .ofString
  format? := (given.lookup "format").bind OutputFormat.ofName?
  mode? := (given.lookup "stringify").bind Mode.ofName?
  packageRoot? := (given.lookup "package-root").map .ofString

/-- The settings file that the options name. -/
def settingsFileOf? (given : GivenOptions) : Option DiskPath :=
  (given.lookup "config").map .ofString

/-- Whether a switch was given. -/
def isGiven (given : GivenOptions) (switch : String) : Bool :=
  (given.lookup switch).isSome

/-- The names of all commands. -/
def names : List String := ["transform", "check", "init", "help"]

/-- Help on a command, or on the program when none is named. -/
def helpOn : List String → Refusal
  | [] => .help
  | [name] => if names.contains name then .help else .misuse
  | _ => .misuse

/-- Reads the arguments of a command. -/
def ofNamed (name : String) (arguments : List String) : Except Refusal Command :=
  match name with
  | "transform" => do
    let given ← readOptions transformForms [] .nothing arguments
    return .transform (settingsFileOf? given) (overridesOf given) (isGiven given "watch")
      (isGiven given "dry-run")
  | "check" => do
    let given ← readOptions checkForms [] .nothing arguments
    return .check (settingsFileOf? given) (overridesOf given)
  | "init" => do
    let given ← readOptions initForms [] .nothing arguments
    return .init (((given.lookup "output").map .ofString).getD (.ofString Settings.fileName))
      (isGiven given "force")
  | "help" => .error (helpOn arguments)
  | _ => .error .misuse

/-- Reads the command line. In front of the command only help and the version may be asked for. -/
def ofArguments : List String → Except Refusal Command
  | [] => .error .misuse
  | first :: rest =>
    if first = "--help" then .error .help
    else if first = "--version" then .error .version
    else match first.toList with
      | '-' :: 'h' :: _ => .error .help
      | '-' :: 'V' :: _ => .error .version
      | _ => ofNamed first rest

end Command

end TypedRoutes
