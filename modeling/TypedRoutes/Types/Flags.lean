import TypedRoutes.Types.Table

/-!
# Type flags

The few facts about a type that decide whether an argument is an options object. References are
followed to their definitions, up to a fixed number of steps; a chain that leads nowhere has no
flag.
-/

namespace TypedRoutes

/-- What the shape of a type is known to be. -/
structure TypeFlags where
  object : Bool := false
  tuple : Bool := false
  array : Bool := false
  arrayLike : Bool := false
  deriving DecidableEq, Repr, Inhabited

/-- No flag is set. -/
def TypeFlags.none : TypeFlags := {}

/-- An object that is neither an array, nor a tuple, nor like one. -/
def TypeFlags.isPlainObject (flags : TypeFlags) : Bool :=
  flags.object && !flags.tuple && !flags.array && !flags.arrayLike

/-- The number of references that are followed. -/
def aliasLimit : Nat := 32

/-- The flags of a type when at most `steps` references may be followed. -/
def TypeFlags.within (definitions : TypeTable) : Nat → Ty → TypeFlags
  | steps, type =>
    match type.kind, steps with
    | .array _, _ => { object := true, array := true, arrayLike := true }
    | .tuple _, _ => { object := true, tuple := true, arrayLike := true }
    | .object _, _ | .record _, _ | .function, _ | .date, _ | .promise _, _ => { object := true }
    | .reference name, steps + 1 =>
      match definitions.get? name with
      | some target => TypeFlags.within definitions steps target
      | Option.none => .none
    | _, _ => .none

/-- The flags of a type. -/
def TypeFlags.classify (definitions : TypeTable) (type : Ty) : TypeFlags :=
  .within definitions aliasLimit type

end TypedRoutes
