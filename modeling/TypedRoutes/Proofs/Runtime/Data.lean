import TypedRoutes.Decimal.Layout
import Mathlib.Data.List.Nodup

/-!
# Values of a running program

What a generated closure computes with. Data is a finite tree, so a value never contains itself.
What a value inherits, and what functions from outside do, belongs to the surroundings of a run
and is kept apart from the data.
-/

namespace TypedRoutes.Runtime

/-- The functions that every program finds in place. -/
inductive Native where
  | array
  | isArray
  | number
  | isFinite
  | object
  | keys
  | values
  | text
  | date
  | stringify
  | every
  | map
  | filter
  | join
  | push
  | toJSON
  deriving DecidableEq, Repr

/-- What can be called: a function that is always there, or one from outside. -/
inductive Callable where
  | native (function : Native)
  | host (name : String)
  deriving DecidableEq, Repr

/-- Data: the two absent values, primitives, functions, dates, dense arrays and plain objects. The
members of an object stand in the order in which its keys are listed. -/
inductive Data where
  | undefined
  | null
  | boolean (value : Bool)
  | number (value : Float)
  | string (value : String)
  | bigInt (value : Int)
  | function (callable : Callable)
  | date (time : Float)
  | array (items : List Data)
  | object (members : List (String × Data))
  deriving Inhabited

namespace Data

/-- The name of a value's run-time type. -/
def typeName : Data → String
  | undefined => "undefined"
  | null => "object"
  | boolean _ => "boolean"
  | number _ => "number"
  | string _ => "string"
  | bigInt _ => "bigint"
  | function _ => "function"
  | date _ => "object"
  | array _ => "object"
  | object _ => "object"

/-- Whether a value has parts: an array, a plain object or a date. -/
def isObject : Data → Bool
  | date _ => true
  | array _ => true
  | object _ => true
  | _ => false

/-- Whether a value is neither of the two absent ones. -/
def isPresent : Data → Bool
  | undefined => false
  | null => false
  | _ => true

/-- Whether a value counts as true in a condition. -/
def truthy : Data → Bool
  | undefined => false
  | null => false
  | boolean value => value
  | number value => !(value == 0 || value.isNaN)
  | string value => !value.isEmpty
  | bigInt value => value != 0
  | _ => true

/-- Equality without conversion. Whether two arrays, objects or dates are one and the same cannot
be told from what they hold. -/
def strictEquals? : Data → Data → Option Bool
  | undefined, undefined => some true
  | null, null => some true
  | boolean a, boolean b => some (a == b)
  | number a, number b => some (a == b)
  | string a, string b => some (a == b)
  | bigInt a, bigInt b => some (a == b)
  | function a, function b => some (a == b)
  | a, b => if a.isObject && b.isObject then none else some false

end Data

/-- The functions that belong to another one. -/
def Native.part? : Native → String → Option Native
  | .array, "isArray" => some .isArray
  | .number, "isFinite" => some .isFinite
  | .object, "keys" => some .keys
  | .object, "values" => some .values
  | _, _ => none

/-- The functions that every array has. -/
def Native.ofArray? : String → Option Native
  | "every" => some .every
  | "map" => some .map
  | "filter" => some .filter
  | "join" => some .join
  | "push" => some .push
  | _ => none

/-- The names that every program finds in place. -/
def standard? : String → Option Data
  | "undefined" => some .undefined
  | "Array" => some (.function (.native .array))
  | "Number" => some (.function (.native .number))
  | "Object" => some (.function (.native .object))
  | "String" => some (.function (.native .text))
  | "Date" => some (.function (.native .date))
  | "JSON" => some (.object [("stringify", .function (.native .stringify))])
  | _ => none

/-- The item at a position that is given as a number. -/
def itemAt? (items : List Data) (position : Float) : Option Data :=
  (items.zipIdx.find? fun item => Float.ofNat item.2 == position).map Prod.fst

/-- The item at a position that is given as a key. -/
def itemNamed? (items : List Data) (key : String) : Option Data :=
  (items.zipIdx.find? fun item => Decimal.naturalText item.2 == key).map Prod.fst

namespace Data

/-- The property that a value holds itself, or that every value of its kind has. -/
def own? : Data → String → Option Data
  | array items, name =>
    if name = "length" then some (number (Float.ofNat items.length))
    else (itemNamed? items name).or ((Native.ofArray? name).map fun f => function (.native f))
  | object members, name => members.lookup name
  | function (.native f), name => (f.part? name).map fun part => function (.native part)
  | date _, "toJSON" => some (function (.native .toJSON))
  | _, _ => none

/-- The keys of an object, in order. -/
def keys : Data → List String
  | array items => (List.range items.length).map Decimal.naturalText
  | object members => members.map Prod.fst
  | _ => []

/-- The values behind the keys of an object, in order. -/
def values : Data → List Data
  | array items => items
  | object members => members.map Prod.snd
  | _ => []

end Data

/-- No array has this many items. -/
def arrayBound : Nat := 4294967296

/-- Data that can exist: arrays keep their bound and no key of an object repeats. -/
inductive Data.WellFormed : Data → Prop where
  | undefined : WellFormed .undefined
  | null : WellFormed .null
  | boolean (value : Bool) : WellFormed (.boolean value)
  | number (value : Float) : WellFormed (.number value)
  | string (value : String) : WellFormed (.string value)
  | bigInt (value : Int) : WellFormed (.bigInt value)
  | function (callable : Callable) : WellFormed (.function callable)
  | date (time : Float) : WellFormed (.date time)
  | array {items : List Data} (bounded : items.length < arrayBound)
      (each : ∀ item ∈ items, WellFormed item) : WellFormed (.array items)
  | object {members : List (String × Data)} (distinct : (members.map Prod.fst).Nodup)
      (each : ∀ member ∈ members, WellFormed member.2) : WellFormed (.object members)

end TypedRoutes.Runtime
