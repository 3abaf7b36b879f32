/-!
# TOML values

The values of a TOML document. Moments are kept as they are written, since nothing is computed with
them. A document may hold numbers that no machine number stands for; whoever looks at such a value
refuses it, whether or not it is wanted.
-/

namespace TypedRoutes

/-- A TOML value. The keys of a table are distinct. -/
inductive Toml where
  | text (value : String)
  | boolean (value : Bool)
  | integer (value : Int)
  /-- A number with a fraction or an exponent; none when it is too large for a float. -/
  | float (value : Option Float)
  /-- A date, a time of day, or both. -/
  | moment (written : String)
  | array (items : List Toml)
  | table (members : List (String × Toml))
  deriving Inhabited

namespace Toml

/-- Integers are not below the negative of this bound. -/
def integerDepth : Nat := Nat.pow 2 127

/-- Integers are below this bound. -/
def integerHeight : Nat := Nat.pow 2 128

/-- Whether an integer fits into a machine integer, signed or not. -/
def fitsInteger (value : Int) : Bool :=
  -(integerDepth : Int) ≤ value && value < integerHeight

mutual

/-- Whether every number in a value has a machine number. -/
def isRepresentable : Toml → Bool
  | .integer value => fitsInteger value
  | .float value => value.isSome
  | .array items => areRepresentable items
  | .table members => haveRepresentable members
  | .text _ | .boolean _ | .moment _ => true

/-- Whether every number in a list of values has a machine number. -/
def areRepresentable : List Toml → Bool
  | [] => true
  | item :: rest => item.isRepresentable && areRepresentable rest

/-- Whether every number in the members of a table has a machine number. -/
def haveRepresentable : List (String × Toml) → Bool
  | [] => true
  | (_, value) :: rest => value.isRepresentable && haveRepresentable rest

end

/-- The values of the named fields of a record, which is a table or the array of its fields in
order. The other members of a table are looked at as well, the items behind the last field are not.
A moment has none of the fields. -/
def fields? (names : List String) : Toml → Option (String → Option Toml)
  | .table members =>
    if haveRepresentable (members.filter fun member => !names.contains member.1) then
      some fun name => members.lookup name
    else none
  | .array items => some fun name => (names.zip items).lookup name
  | .moment _ => some fun _ => none
  | _ => none

end Toml

end TypedRoutes
