/-!
# Modes

How the body of a response is treated before it is sent.
-/

namespace TypedRoutes

/-- What the generated closure does with a value. -/
inductive Mode where
  /-- Throws on a mismatch and serializes otherwise. -/
  | assert
  /-- Serializes a value that matches and gives null otherwise. -/
  | is
  /-- Gives a report with the text or the mismatches. -/
  | validate
  /-- Serializes without a check. -/
  | stringify
  deriving DecidableEq, Repr, Inhabited

/-- The name of a mode, in configurations and in artifacts. -/
def Mode.name : Mode → String
  | .assert => "assert"
  | .is => "is"
  | .validate => "validate"
  | .stringify => "stringify"

/-- All modes. -/
def Mode.all : List Mode := [.assert, .is, .validate, .stringify]

/-- The mode with the given name. -/
def Mode.ofName? (name : String) : Option Mode :=
  Mode.all.find? fun mode => mode.name == name

/-- What is wrong with a name that no mode has. -/
def Mode.unknownMessage (name : String) : String :=
  "unknown stringify mode '" ++ name ++ "', expected one of: assert, is, validate, stringify"

/-- A mode is found by its name. -/
theorem Mode.ofName?_name (mode : Mode) : Mode.ofName? mode.name = some mode := by
  cases mode <;> decide

end TypedRoutes
