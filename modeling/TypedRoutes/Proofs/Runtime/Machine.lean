import TypedRoutes.Json.Value
import TypedRoutes.Script.Build
import TypedRoutes.Proofs.Runtime.Data

/-!
# Running programs

The meaning of expressions and statements, given a number of steps. A run ends with a value, ends
with a failure, or needs more steps; an operation that no generated program needs has no result
either. Arrays that a program makes empty can grow and are kept in a heap, everything else never
changes.
-/

namespace TypedRoutes.Runtime

/-- How a run can fail. -/
inductive Failure where
  /-- A name that nothing is bound to. -/
  | unbound (name : String)
  /-- A property of an absent value, or a call of what is no function. -/
  | typeError
  | thrown (value : Data)
  deriving Inhabited

/-- What a run finds around it. Reading a property of a value leads to a value of lower rank, so no
chain of properties goes on forever. -/
structure World where
  /-- What a free name stands for. -/
  global? : String → Option Data
  /-- What a value gives for a property that it does not hold itself. -/
  inherited : Data → String → Data
  /-- What a function from outside gives, called by name on a value. -/
  call : String → Data → List Data → Except Failure Data
  /-- The text of a number. -/
  numberText : Float → String
  /-- What a date gives for its written form. -/
  dateJson : Float → Data
  /-- What the standard serializer gives for a value that is no text. -/
  json : Data → Except Failure Data
  rank : Data → Nat
  rank_property : ∀ value name, value.isObject = true →
    rank ((value.own? name).getD (inherited value name)) < rank value
  rank_value : ∀ value, ∀ item ∈ value.values, rank item < rank value
  inherited_wellFormed : ∀ value name, (inherited value name).WellFormed

/-- The property of a value. -/
def World.get (world : World) (value : Data) (name : String) : Data :=
  (value.own? name).getD (world.inherited value name)

/-- The item of an array at a numeric position; beyond the end nothing but what is inherited. -/
def World.item (world : World) (items : List Data) (position : Float) : Data :=
  (itemAt? items position).getD (world.inherited (.array items) (world.numberText position))

/-- A function as it is declared: its name, its parameters and its body. -/
structure Declared where
  name : String
  params : List String
  body : Body

mutual

/-- What an expression yields: data, a closure with the names it sees, an array that can grow, or an
object that holds one of these. -/
inductive Value where
  | data (data : Data)
  | closure (params : List String) (body : Body) (env : Env)
  | cell (address : Nat)
  | record (members : List (String × Value))

/-- The names that an expression sees, the innermost first. Functions that are declared side by side
see each other. -/
inductive Env where
  | empty
  | bind (name : String) (value : Value) (outer : Env)
  | functions (declared : List Declared) (outer : Env)

end

/-- The declaration of a function by name. -/
def Declared.find? (declared : List Declared) (name : String) : Option Declared :=
  List.find? (fun function => function.name == name) declared

/-- The value of a name. -/
def Env.lookup? : Env → String → Option Value
  | .empty, _ => none
  | .bind name value outer, sought => if name = sought then some value else outer.lookup? sought
  | .functions declared outer, sought =>
    match Declared.find? declared sought with
    | some function => some (.closure function.params function.body (.functions declared outer))
    | none => outer.lookup? sought

/-- Binds parameters to arguments; a parameter without argument is undefined. -/
def Env.bindAll : List String → List Value → Env → Env
  | [], _, env => env
  | param :: params, [], env => Env.bindAll params [] (.bind param (.data .undefined) env)
  | param :: params, value :: values, env => Env.bindAll params values (.bind param value env)

/-- The arrays that can grow. -/
abbrev Heap := List (List Data)

/-- A run: it may fail, and it may have no result. -/
abbrev Run := StateT Heap (ExceptT Failure Option)

/-- A run without a result. -/
def Run.stuck {α : Type} : Run α := fun _ => ExceptT.mk none

/-- A run that only asks for data. -/
def Run.ofExcept {α : Type} : Except Failure α → Run α
  | .ok value => pure value
  | .error failure => throw failure

namespace Value

/-- A value that is data. -/
def data? : Value → Option Data
  | data value => some value
  | _ => none

/-- Whether a value counts as true in a condition. -/
def truthy : Value → Bool
  | data value => value.truthy
  | _ => true

/-- The data of a value. -/
def toData : Value → Run Data
  | data value => pure value
  | _ => Run.stuck

/-- The name of a value's run-time type. -/
def typeName : Value → String
  | data value => value.typeName
  | closure _ _ _ => "function"
  | _ => "object"

end Value

/-- The data of several values. -/
def allData? (values : List Value) : Option (List Data) :=
  values.mapM Value.data?

/-- An object with the given members. -/
def makeObject (members : List (String × Value)) : Value :=
  match allData? (members.map Prod.snd) with
  | some values => .data (.object ((members.map Prod.fst).zip values))
  | none => .record members

/-- An array with the given items. -/
def makeArray (items : List Value) : Run Value :=
  match items with
  | [] => do
    let heap ← get
    set (heap ++ [[]])
    return .cell heap.length
  | items =>
    match allData? items with
    | some values => return .data (.array values)
    | none => Run.stuck

/-- The value of a name. -/
def readName (world : World) (env : Env) (name : String) : Run Value :=
  match env.lookup? name with
  | some value => return value
  | none =>
    match (standard? name).or (world.global? name) with
    | some value => return .data value
    | none => throw (.unbound name)

/-- The property of a value. An absent value has none, and asking for one fails. -/
def readProperty (world : World) (target : Value) (name : String) : Run Value :=
  match target with
  | .data value => if value.isPresent then return .data (world.get value name) else throw .typeError
  | .cell _ => if name = "push" then return .data (.function (.native .push)) else Run.stuck
  | _ => Run.stuck

/-- The property of a value whose key is computed. -/
def readElement (world : World) (target index : Value) : Run Value :=
  match index, target with
  | .data (.string key), _ => readProperty world target key
  | .data (.number position), .data (.array items) => return .data (world.item items position)
  | .data (.number position), _ => readProperty world target (world.numberText position)
  | _, _ => Run.stuck

/-- Equality without conversion. -/
def strictEquals (left right : Value) : Run Bool :=
  match left, right with
  | .data left, .data right =>
    match left.strictEquals? right with
    | some result => return result
    | none => Run.stuck
  | _, _ => Run.stuck

/-- The text of a whole number. -/
def integerText (value : Int) : String :=
  (if value < 0 then "-" else "") ++ Decimal.naturalText value.natAbs

/-- The text of a primitive value. -/
def Data.text? (world : World) : Data → Option String
  | .undefined => some "undefined"
  | .null => some "null"
  | .boolean value => some (Json.booleanText value)
  | .number value => some (world.numberText value)
  | .string value => some value
  | .bigInt value => some (integerText value)
  | _ => none

/-- Addition of numbers, or concatenation when an operand is a text. -/
def plus (world : World) (left right : Value) : Run Value :=
  match left, right with
  | .data (.number left), .data (.number right) => return .data (.number (left + right))
  | .data (.string left), .data right =>
    match right.text? world with
    | some right => return .data (.string (left ++ right))
    | none => Run.stuck
  | .data left, .data (.string right) =>
    match left.text? world with
    | some left => return .data (.string (left ++ right))
    | none => Run.stuck
  | _, _ => Run.stuck

/-- Whether a value was made by a constructor; dates are the only values that are asked about. -/
def isInstance (left right : Value) : Run Bool :=
  match left, right with
  | .data (.date _), .data (.function (.native .date)) => return true
  | .data _, .data (.function (.native .date)) => return false
  | _, _ => Run.stuck

/-- The text of an item in a joined array; absent items have none. -/
def joinText? (world : World) : Data → Option String
  | .undefined => some ""
  | .null => some ""
  | value => value.text? world

/-- What the standard serializer gives. -/
def standardJson (world : World) : Data → Except Failure Data
  | .string value => .ok (.string (Json.quote value))
  | value => world.json value

/-- Calls a function that is always there and that calls no other function. -/
def callNative (world : World) (function : Native) (this : Value) (arguments : List Value) :
    Run Value :=
  match function, this, arguments with
  | .isArray, _, [.data (.array _)] => return .data (.boolean true)
  | .isArray, _, [.data _] => return .data (.boolean false)
  | .isFinite, _, [.data (.number value)] => return .data (.boolean value.isFinite)
  | .isFinite, _, [.data _] => return .data (.boolean false)
  | .keys, _, [.data value] =>
    if value.isObject then return .data (.array (value.keys.map Data.string)) else Run.stuck
  | .values, _, [.data value] =>
    if value.isObject then return .data (.array value.values) else Run.stuck
  | .text, _, [.data value] =>
    match value.text? world with
    | some text => return .data (.string text)
    | none => Run.stuck
  | .stringify, _, [.data value] => return .data (← Run.ofExcept (standardJson world value))
  | .toJSON, .data (.date time), [] => return .data (world.dateJson time)
  | .join, .data (.array items), [.data (.string separator)] =>
    match items.mapM (joinText? world) with
    | some texts => return .data (.string (separated separator texts))
    | none => Run.stuck
  | .push, .cell address, [.data value] => do
    let heap ← get
    set (heap.modify address (· ++ [value]))
    return .data (.number (Float.ofNat ((heap.getD address []).length + 1)))
  | _, _, _ => Run.stuck

/-- The function that a statement declares. -/
def Declared.ofStmt? : Stmt → Option Declared
  | .const name (.arrow params body) => some ⟨name, params, body⟩
  | _ => none

/-- The functions that are declared side by side at the front of a block, and the statements behind
them. -/
def leadingFunctions : List Stmt → List Declared × List Stmt
  | [] => ([], [])
  | stmt :: rest =>
    match Declared.ofStmt? stmt with
    | some function => (function :: (leadingFunctions rest).1, (leadingFunctions rest).2)
    | none => ([], stmt :: rest)

/-- A run that is given a number of steps; without any it has no result. -/
abbrev Process (α : Type) := Nat → Run α

mutual

/-- Evaluates an expression. -/
def eval (world : World) (env : Env) (expr : Expr) : Process Value
  | 0 => Run.stuck
  | fuel + 1 =>
    match expr with
    | .identifier name => readName world env name
    | .property target name => do readProperty world (← eval world env target fuel) name
    | .element target index => do
      let target ← eval world env target fuel
      readElement world target (← eval world env index fuel)
    | .call callee _ arguments _ => do
      let (function, this) ← evalCallee world env callee fuel
      apply world function this (← evalAll world env arguments fuel) fuel
    | .string value => return .data (.string value)
    | .number value => return .data (.number value)
    | .boolean value => return .data (.boolean value)
    | .null => return .data .null
    | .object entries => return makeObject (← evalEntries world env entries fuel)
    | .array elements => do makeArray (← evalAll world env elements fuel)
    | .arrow params body => return .closure params body env
    | .unary .not operand => return .data (.boolean !(← eval world env operand fuel).truthy)
    | .unary .typeOf operand => return .data (.string (← eval world env operand fuel).typeName)
    | .binary .and left right => do
      let value ← eval world env left fuel
      if value.truthy then eval world env right fuel else return value
    | .binary .or left right => do
      let value ← eval world env left fuel
      if value.truthy then return value else eval world env right fuel
    | .binary .strictEqual left right => do
      let left ← eval world env left fuel
      return .data (.boolean (← strictEquals left (← eval world env right fuel)))
    | .binary .strictNotEqual left right => do
      let left ← eval world env left fuel
      return .data (.boolean !(← strictEquals left (← eval world env right fuel)))
    | .binary .plus left right => do
      let left ← eval world env left fuel
      plus world left (← eval world env right fuel)
    | .binary .instanceOf left right => do
      let left ← eval world env left fuel
      return .data (.boolean (← isInstance left (← eval world env right fuel)))
    | .conditional condition whenTrue whenFalse => do
      let value ← eval world env condition fuel
      if value.truthy then eval world env whenTrue fuel else eval world env whenFalse fuel

/-- Evaluates what is called, and the value that it is called on. -/
def evalCallee (world : World) (env : Env) (callee : Expr) : Process (Value × Value)
  | 0 => Run.stuck
  | fuel + 1 =>
    match callee with
    | .property target name => do
      let target ← eval world env target fuel
      return (← readProperty world target name, target)
    | .element target index => do
      let target ← eval world env target fuel
      return (← readElement world target (← eval world env index fuel), target)
    | callee => return (← eval world env callee fuel, .data .undefined)

/-- Evaluates expressions from left to right. -/
def evalAll (world : World) (env : Env) (exprs : List Expr) : Process (List Value)
  | 0 => Run.stuck
  | fuel + 1 =>
    match exprs with
    | [] => return []
    | expr :: rest => do
      let value ← eval world env expr fuel
      return value :: (← evalAll world env rest fuel)

/-- Evaluates the entries of an object literal in order. -/
def evalEntries (world : World) (env : Env) (entries : List Entry) :
    Process (List (String × Value))
  | 0 => Run.stuck
  | fuel + 1 =>
    match entries with
    | [] => return []
    | .mk key expr :: rest => do
      let value ← eval world env expr fuel
      return (key, value) :: (← evalEntries world env rest fuel)

/-- Calls a value. -/
def apply (world : World) (function this : Value) (arguments : List Value) : Process Value
  | 0 => Run.stuck
  | fuel + 1 =>
    match function with
    | .closure params (.concise value) env =>
      eval world (.bindAll params arguments env) value fuel
    | .closure params (.block statements) env => do
      let result ← exec world (.bindAll params arguments env) statements fuel
      return result.getD (.data .undefined)
    | .data (.function (.host name)) => do
      let this ← this.toData
      match allData? arguments with
      | some arguments => return .data (← Run.ofExcept (world.call name this arguments))
      | none => Run.stuck
    | .data (.function (.native .every)) =>
      match this, arguments with
      | .data (.array items), [test] =>
        return .data (.boolean (← every world test items items 0 fuel))
      | _, _ => Run.stuck
    | .data (.function (.native .map)) =>
      match this, arguments with
      | .data (.array items), [image] =>
        return .data (.array (← mapItems world image items items 0 fuel))
      | _, _ => Run.stuck
    | .data (.function (.native .filter)) =>
      match this, arguments with
      | .data (.array items), [test] =>
        return .data (.array (← filter world test items items 0 fuel))
      | _, _ => Run.stuck
    | .data (.function (.native function)) => callNative world function this arguments
    | .data _ => throw .typeError
    | _ => Run.stuck

/-- Whether a test holds of every item from a position on. -/
def every (world : World) (test : Value) (array rest : List Data) (position : Nat) : Process Bool
  | 0 => Run.stuck
  | fuel + 1 =>
    match rest with
    | [] => return true
    | item :: rest => do
      let result ← apply world test (.data .undefined)
        [.data item, .data (.number (Float.ofNat position)), .data (.array array)] fuel
      if result.truthy then every world test array rest (position + 1) fuel else return false

/-- The images of the items from a position on. -/
def mapItems (world : World) (image : Value) (array rest : List Data) (position : Nat) :
    Process (List Data)
  | 0 => Run.stuck
  | fuel + 1 =>
    match rest with
    | [] => return []
    | item :: rest => do
      let result ← apply world image (.data .undefined)
        [.data item, .data (.number (Float.ofNat position)), .data (.array array)] fuel
      let result ← result.toData
      return result :: (← mapItems world image array rest (position + 1) fuel)

/-- The items from a position on that a test holds of. -/
def filter (world : World) (test : Value) (array rest : List Data) (position : Nat) :
    Process (List Data)
  | 0 => Run.stuck
  | fuel + 1 =>
    match rest with
    | [] => return []
    | item :: rest => do
      let result ← apply world test (.data .undefined)
        [.data item, .data (.number (Float.ofNat position)), .data (.array array)] fuel
      let kept ← filter world test array rest (position + 1) fuel
      return if result.truthy then item :: kept else kept

/-- Carries out statements until one of them returns. -/
def exec (world : World) (env : Env) (statements : List Stmt) : Process (Option Value)
  | 0 => Run.stuck
  | fuel + 1 =>
    match leadingFunctions statements with
    | (function :: more, rest) => exec world (.functions (function :: more) env) rest fuel
    | ([], []) => return none
    | ([], .const name value :: rest) => do
      let value ← eval world env value fuel
      exec world (.bind name value env) rest fuel
    | ([], .branch condition consequent alternative :: rest) => do
      let value ← eval world env condition fuel
      let result ← exec world env (if value.truthy then consequent else alternative) fuel
      match result with
      | some result => return some result
      | none => exec world env rest fuel
    | ([], .returns value :: _) => return some (← eval world env value fuel)
    | ([], .throws value :: _) => do
      let thrown ← (← eval world env value fuel).toData
      throw (.thrown thrown)
    | ([], .expression value :: rest) => do
      let _ ← eval world env value fuel
      exec world env rest fuel

end

/-! Without steps there is no result. -/

section

variable {world : World} {env : Env}

theorem eval_zero (expr : Expr) : eval world env expr 0 = Run.stuck := by
  rw [eval]

theorem evalCallee_zero (callee : Expr) : evalCallee world env callee 0 = Run.stuck := by
  rw [evalCallee]

theorem evalAll_zero (exprs : List Expr) : evalAll world env exprs 0 = Run.stuck := by
  rw [evalAll]

theorem evalEntries_zero (entries : List Entry) : evalEntries world env entries 0 = Run.stuck := by
  rw [evalEntries]

theorem apply_zero (function this : Value) (arguments : List Value) :
    apply world function this arguments 0 = Run.stuck := by
  rw [apply]

theorem exec_zero (statements : List Stmt) : exec world env statements 0 = Run.stuck := by
  rw [exec]

end

end TypedRoutes.Runtime
