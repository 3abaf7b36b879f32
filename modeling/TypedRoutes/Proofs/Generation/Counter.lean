import TypedRoutes.Artifact.Closure

/-!
# Counting closures

Generation with a counter in its state in place of an argument: inside of how many closures it is.
The counter is raised for the body of a closure and lowered behind it, and a parameter is named by
it before it is raised. Generation that counts gives what generation with the argument gives, asks
for the same helpers, and leaves the counter as it found it.
-/

namespace TypedRoutes

/-- What generation that counts threads: the helpers, and how many closures are open. -/
structure Context where
  registry : Registry
  depth : Nat

/-- A step of generation that counts. -/
abbrev Counting (α : Type) := StateM Context α

namespace Counting

variable {α β : Type}

/-- The name of a parameter for a closure that is about to be opened. -/
def binding (word : String) : Counting String := do
  return bindingName (← get).depth word

/-- A step inside of one more closure. -/
def nested (step : Counting α) : Counting α := do
  modify fun context => { context with depth := context.depth + 1 }
  let value ← step
  modify fun context => { context with depth := context.depth - 1 }
  return value

/-- A step that opens no closure. -/
def flat (step : Generate α) : Counting α := do
  let context ← get
  let (value, registry) := step.run context.registry
  set { context with registry }
  return value

/-- The step with the nesting as an argument, where the counter is. -/
def counted (step : Nat → Generate α) : Counting α := fun context =>
  let (value, registry) := (step context.depth).run context.registry
  (value, { context with registry })

/-- A counted step runs at the current depth and leaves it as it is. -/
theorem run_counted (step : Nat → Generate α) (context : Context) :
    (counted step).run context =
      (((step context.depth).run context.registry).1,
        ⟨((step context.depth).run context.registry).2, context.depth⟩) :=
  rfl

/-- A value needs no depth. -/
theorem pure_counted (value : α) :
    (pure value : Counting α) = counted fun _ => pure value :=
  rfl

/-- Two counted steps are one, the second at the depth of the first. -/
theorem bind_counted (step : Nat → Generate α) (next : Nat → α → Generate β) :
    (counted step >>= fun value => counted fun depth => next depth value) =
      counted fun depth => step depth >>= next depth :=
  rfl

/-- A choice between counted steps is one counted step. -/
theorem ite_counted (condition : Prop) [Decidable condition] (yes no : Nat → Generate α) :
    (if condition then counted yes else counted no) =
      counted fun depth => if condition then yes depth else no depth := by
  split <;> rfl

/-- A step without depth is counted at any. -/
theorem flat_counted (step : Generate α) : flat step = counted fun _ => step :=
  rfl

/-- A binder is numbered by the depth, which is raised behind it only. -/
theorem binding_counted (word : String) (next : Nat → String → Generate β) :
    (binding word >>= fun name => counted fun depth => next depth name) =
      counted fun depth => next depth (bindingName depth word) :=
  rfl

/-- Inside of one more closure the argument is greater by one; behind it the counter is back. -/
theorem nested_counted (step : Nat → Generate α) :
    nested (counted step) = counted fun depth => step (depth + 1) :=
  rfl

end Counting

namespace Scope

open Counting

/-! ## Checks -/

mutual

/-- The expression that checks `input` against a type. -/
def checkCounting (scope : Scope) : Ty → Expr → Counting Expr
  | .mk kind _, input => scope.checkKindCounting kind input

/-- The expression that checks `input` against a kind of type. -/
def checkKindCounting (scope : Scope) : TyKind → Expr → Counting Expr
  | .array element, input => do
    let name ← binding "elem"
    let condition ← nested (scope.checkCounting element (.identifier name))
    if condition.isBoolean true then return .isArray input
    else return .conjunction [.isArray input,
      .invoke (.property input "every") [.lambda [name] condition]]
  | .tuple elements, input => do
    let conditions ← scope.checkElementsCounting elements input 0
    return .conjunction (.isArray input ::
      .equals (.natural elements.length) (.property input "length") :: conditions)
  | .object properties, input => do
    let conditions ← scope.checkPropertiesCounting properties input
    return .conjunction (Expr.objectConditions input ++ conditions)
  | .record value, input => do
    let name ← binding "value"
    let condition ← nested (scope.checkCounting value (.identifier name))
    if condition.isBoolean true then return .conjunction (Expr.objectConditions input)
    else return .conjunction (Expr.objectConditions input ++
      [.invoke (.property (.invoke (.property (.identifier "Object") "values") [input]) "every")
        [.lambda [name] condition]])
  | .union members, input => do
    return .disjunction (← scope.checkMembersCounting members input)
  | .intersection members, input => do
    return .conjunction (← scope.checkMembersCounting members input)
  | kind, input => flat (scope.checkKind kind 0 input)

/-- The checks of tuple elements, from the given position on. -/
def checkElementsCounting (scope : Scope) : List Ty → Expr → Nat → Counting (List Expr)
  | [], _, _ => return []
  | element :: rest, input, position => do
    let condition ← scope.checkCounting element (.element input (.natural position))
    return condition :: (← scope.checkElementsCounting rest input (position + 1))

/-- The checks of object properties. -/
def checkPropertiesCounting (scope : Scope) : List TyProperty → Expr → Counting (List Expr)
  | [], _ => return []
  | .mk name type optional _ :: rest, input => do
    let value := Expr.member input name
    let condition ← scope.checkCounting type value
    let condition := if optional && !condition.isBoolean true
      then Expr.disjunction [.equals .undefined value, condition] else condition
    return condition :: (← scope.checkPropertiesCounting rest input)

/-- The checks of the members of a union or an intersection. -/
def checkMembersCounting (scope : Scope) : List Ty → Expr → Counting (List Expr)
  | [], _ => return []
  | member :: rest, input => do
    let condition ← scope.checkCounting member input
    return condition :: (← scope.checkMembersCounting rest input)

end

section

variable (scope : Scope)

mutual

/-- With the depth in the state, a check is generated as with the depth as an argument. -/
theorem checkCounting_eq (type : Ty) (input : Expr) :
    scope.checkCounting type input = counted fun depth => scope.check type depth input := by
  cases type with
  | mk kind _ =>
    simp only [checkCounting, check]
    exact checkKindCounting_eq kind input

/-- The same for a kind of type, by induction on it. -/
theorem checkKindCounting_eq (kind : TyKind) (input : Expr) :
    scope.checkKindCounting kind input =
      counted fun depth => scope.checkKind kind depth input := by
  cases kind with
  | array element =>
    simp only [checkKindCounting, checkKind, checkCounting_eq element, nested_counted,
      pure_counted, ite_counted, bind_counted, binding_counted]
  | tuple elements =>
    simp only [checkKindCounting, checkKind, checkElementsCounting_eq elements, pure_counted,
      bind_counted]
  | object properties =>
    simp only [checkKindCounting, checkKind, checkPropertiesCounting_eq properties, pure_counted,
      bind_counted]
  | record value =>
    simp only [checkKindCounting, checkKind, checkCounting_eq value, nested_counted,
      pure_counted, ite_counted, bind_counted, binding_counted]
  | union members =>
    simp only [checkKindCounting, checkKind, checkMembersCounting_eq members, pure_counted,
      bind_counted]
  | intersection members =>
    simp only [checkKindCounting, checkKind, checkMembersCounting_eq members, pure_counted,
      bind_counted]
  | _ => simp only [checkKindCounting, checkKind, flat_counted]

/-- The same for the checks of tuple elements. -/
theorem checkElementsCounting_eq (elements : List Ty) (input : Expr) (position : Nat) :
    scope.checkElementsCounting elements input position =
      counted fun depth => scope.checkElements elements depth input position := by
  cases elements with
  | nil => simp only [checkElementsCounting, checkElements, pure_counted]
  | cons element rest =>
    simp only [checkElementsCounting, checkElements, checkCounting_eq element,
      checkElementsCounting_eq rest, pure_counted, bind_counted]

/-- The same for the checks of properties. -/
theorem checkPropertiesCounting_eq (properties : List TyProperty) (input : Expr) :
    scope.checkPropertiesCounting properties input =
      counted fun depth => scope.checkProperties properties depth input := by
  cases properties with
  | nil => simp only [checkPropertiesCounting, checkProperties, pure_counted]
  | cons property rest =>
    obtain ⟨name, type, optional, _⟩ := property
    simp only [checkPropertiesCounting, checkProperties, checkCounting_eq type,
      checkPropertiesCounting_eq rest, pure_counted, bind_counted]

/-- The same for the checks of the members of a union or an intersection. -/
theorem checkMembersCounting_eq (members : List Ty) (input : Expr) :
    scope.checkMembersCounting members input =
      counted fun depth => scope.checkMembers members depth input := by
  cases members with
  | nil => simp only [checkMembersCounting, checkMembers, pure_counted]
  | cons member rest =>
    simp only [checkMembersCounting, checkMembers, checkCounting_eq member,
      checkMembersCounting_eq rest, pure_counted, bind_counted]

end

end

/-! ## Validators -/

mutual

/-- The expression that validates `input` at `path`, where `expected` is wanted. -/
def validateCounting (scope : Scope) : Ty → Expr → Expr → String → Counting Expr
  | .mk kind _, input, path, expected => scope.validateKindCounting kind input path expected

/-- The expression that validates `input` against a kind of type. -/
def validateKindCounting (scope : Scope) : TyKind → Expr → Expr → String → Counting Expr
  | .reference name, input, path, _ => do
    let helper ← flat (scope.callHelper .validate name [input, path])
    return helper.getD (.boolean true)
  | .array element, input, path, expected => do
    let head := orReport (.isArray input) path expected input
    let elem ← binding "elem"
    let index ← binding "index"
    let item ← nested (scope.validateCounting element (.identifier elem)
      (indexed path (.identifier index)) (scope.expected element))
    if item.isBoolean true then return head
    else return .conjunction [head, everyFlag
      (.invoke (.property input "map") [.lambda [elem, index] item])]
  | .tuple elements, input, path, expected => do
    let shape := Expr.conjunction [.isArray input,
      .equals (.natural elements.length) (.property input "length")]
    let items ← scope.validateElementsCounting elements input path 0
    return combine (orReport shape path expected input) items
  | .object properties, input, path, expected => do
    let items ← scope.validatePropertiesCounting properties input path
    return combine (objectHead path expected input) items
  | .record value, input, path, expected => do
    let head := objectHead path expected input
    let key ← binding "key"
    let item ← nested (scope.validateCounting value (.element input (.identifier key))
      (indexed path (.standardJson (.identifier key))) (scope.expected value))
    if item.isBoolean true then return head
    else return .conjunction [head, everyFlag (.invoke (.property
      (.invoke (.property (.identifier "Object") "keys") [input]) "map") [.lambda [key] item])]
  | kind, input, path, expected => do
    let condition ← scope.checkKindCounting kind input
    if condition.isBoolean true then return condition
    else return orReport condition path expected input

/-- Validates tuple elements from the given position on. -/
def validateElementsCounting (scope : Scope) :
    List Ty → Expr → Expr → Nat → Counting (List Expr)
  | [], _, _, _ => return []
  | element :: rest, input, path, position => do
    let item ← scope.validateCounting element (.element input (.natural position))
      (.concatenation [path, .string ("[" ++ Decimal.naturalText position ++ "]")])
      (scope.expected element)
    let items ← scope.validateElementsCounting rest input path (position + 1)
    return if item.isBoolean true then items else item :: items

/-- Validates object properties. -/
def validatePropertiesCounting (scope : Scope) :
    List TyProperty → Expr → Expr → Counting (List Expr)
  | [], _, _ => return []
  | .mk name type optional _ :: rest, input, path => do
    let value := Expr.member input name
    let item ← scope.validateCounting type value
      (.concatenation [path, .string (accessor name)]) (scope.expected type)
    let items ← scope.validatePropertiesCounting rest input path
    return if item.isBoolean true then items
      else (if optional then .disjunction [.equals .undefined value, item] else item) :: items

end

section

variable (scope : Scope)

mutual

/-- With the depth in the state, a validator is generated as with the depth as an argument. -/
theorem validateCounting_eq (type : Ty) (input path : Expr) (expected : String) :
    scope.validateCounting type input path expected =
      counted fun depth => scope.validate type depth input path expected := by
  cases type with
  | mk kind _ =>
    simp only [validateCounting, validate]
    exact validateKindCounting_eq kind input path expected

/-- The same for a kind of type, by induction on it. -/
theorem validateKindCounting_eq (kind : TyKind) (input path : Expr) (expected : String) :
    scope.validateKindCounting kind input path expected =
      counted fun depth => scope.validateKind kind depth input path expected := by
  cases kind with
  | reference name =>
    simp only [validateKindCounting, validateKind, flat_counted, pure_counted, bind_counted]
  | array element =>
    simp only [validateKindCounting, validateKind, validateCounting_eq element, nested_counted,
      pure_counted, ite_counted, bind_counted, binding_counted]
  | tuple elements =>
    simp only [validateKindCounting, validateKind, validateElementsCounting_eq elements,
      pure_counted, bind_counted]
  | object properties =>
    simp only [validateKindCounting, validateKind, validatePropertiesCounting_eq properties,
      pure_counted, bind_counted]
  | record value =>
    simp only [validateKindCounting, validateKind, validateCounting_eq value, nested_counted,
      pure_counted, ite_counted, bind_counted, binding_counted]
  | _ =>
    simp only [validateKindCounting, validateKind, checkKindCounting_eq, pure_counted,
      ite_counted, bind_counted]

/-- The same for the validators of tuple elements. -/
theorem validateElementsCounting_eq (elements : List Ty) (input path : Expr) (position : Nat) :
    scope.validateElementsCounting elements input path position =
      counted fun depth => scope.validateElements elements depth input path position := by
  cases elements with
  | nil => simp only [validateElementsCounting, validateElements, pure_counted]
  | cons element rest =>
    simp only [validateElementsCounting, validateElements, validateCounting_eq element,
      validateElementsCounting_eq rest, pure_counted, bind_counted]

/-- The same for the validators of properties. -/
theorem validatePropertiesCounting_eq (properties : List TyProperty) (input path : Expr) :
    scope.validatePropertiesCounting properties input path =
      counted fun depth => scope.validateProperties properties depth input path := by
  cases properties with
  | nil => simp only [validatePropertiesCounting, validateProperties, pure_counted]
  | cons property rest =>
    obtain ⟨name, type, optional, _⟩ := property
    simp only [validatePropertiesCounting, validateProperties, validateCounting_eq type,
      validatePropertiesCounting_eq rest, pure_counted, bind_counted]

end

end

/-! ## Serializers -/

mutual

/-- The expression that serializes `input` as a type. -/
def serializeCounting (scope : Scope) : Ty → Expr → Counting Expr
  | .mk kind aliasName, input => scope.serializeKindCounting kind aliasName input

/-- The expression that serializes `input` as a kind of type with the given alias. -/
def serializeKindCounting (scope : Scope) : TyKind → Option String → Expr → Counting Expr
  | .array element, _, input => do
    let name ← binding "elem"
    let text ← nested (scope.serializeCounting element (.identifier name))
    return bracketed "[" (.invoke (.property input "map") [.lambda [name] text]) "]"
  | .tuple elements, _, input => do
    let parts ← scope.serializeElementsCounting elements input 0
    return .concatenation (.string "[" :: parts ++ [.string "]"])
  | .object properties, _, input => do
    if properties.any TyProperty.mayBeAbsent then
      let entries ← scope.serializeEntriesCounting properties input
      return bracketed "\x7b" (present entries) "\x7d"
    else
      let parts ← scope.serializePropertiesCounting properties input true
      return .concatenation (.string "\x7b" :: parts ++ [.string "\x7d"])
  | .record value, _, input => do
    let key ← binding "key"
    let text ← nested (scope.serializeCounting value (.element input (.identifier key)))
    let entry := Expr.concatenation
      [.invoke (scope.runtime "string") [.identifier key], .string ":", text]
    return bracketed "\x7b" (.invoke (.property
      (.invoke (.property (.identifier "Object") "keys") [input]) "map")
        [.lambda [key] entry]) "\x7d"
  | .union members, aliasName, input => do
    let branches ← scope.serializeMembersCounting members false input
    return choose branches (scope.noMatch (.mk (.union members) aliasName) input)
  | kind, aliasName, input => flat (scope.serializeKind kind aliasName 0 input)

/-- Serializes tuple elements from the given position on, with commas between them. -/
def serializeElementsCounting (scope : Scope) : List Ty → Expr → Nat → Counting (List Expr)
  | [], _, _ => return []
  | element :: rest, input, position => do
    let text ← scope.serializeCounting element (.element input (.natural position))
    let texts ← scope.serializeElementsCounting rest input (position + 1)
    return if position = 0 then text :: texts else .string "," :: text :: texts

/-- Serializes properties that are always present; a comma stands before all but the first. -/
def serializePropertiesCounting (scope : Scope) :
    List TyProperty → Expr → Bool → Counting (List Expr)
  | [], _, _ => return []
  | .mk name type _ _ :: rest, input, first => do
    let text ← scope.serializeCounting type (.member input name)
    let texts ← scope.serializePropertiesCounting rest input false
    return .string ((if first then "" else ",") ++ Json.quote name ++ ":") :: text :: texts

/-- Serializes properties of which some may be absent. -/
def serializeEntriesCounting (scope : Scope) : List TyProperty → Expr → Counting (List Expr)
  | [], _ => return []
  | .mk name type optional _ :: rest, input => do
    let value := Expr.member input name
    let text ← scope.serializeDefinedCounting type value
    let entry := Expr.concatenation [.string (Json.quote name ++ ":"), text]
    let entry := if optional || type.admitsAbsence
      then Expr.conditional (.equals .undefined value) .undefined entry else entry
    return entry :: (← scope.serializeEntriesCounting rest input)

/-- Serializes a value that is not undefined. -/
def serializeDefinedCounting (scope : Scope) : Ty → Expr → Counting Expr
  | .mk (.union members) _, input =>
    match members.filter fun member => !member.isUndefined with
    | [] => return .standardJson input
    | [_] => scope.serializeOnlyCounting members input
    | kept => do
      let branches ← scope.serializeMembersCounting members true input
      return choose branches (scope.noMatch (TyKind.union kept).type input)
  | .mk kind aliasName, input => scope.serializeKindCounting kind aliasName input

/-- Serializes as the first member that is not undefined. -/
def serializeOnlyCounting (scope : Scope) : List Ty → Expr → Counting Expr
  | [], input => return .standardJson input
  | member :: rest, input =>
    if member.isUndefined then scope.serializeOnlyCounting rest input
    else scope.serializeCounting member input

/-- The members of a union, each with its check and its serializer; undefined members may be left
out. -/
def serializeMembersCounting (scope : Scope) :
    List Ty → Bool → Expr → Counting (List (Expr × Expr))
  | [], _, _ => return []
  | member :: rest, defined, input =>
    if defined && member.isUndefined then scope.serializeMembersCounting rest defined input
    else do
      let condition ← scope.checkCounting member input
      let text ← scope.serializeCounting member input
      return (condition, text) :: (← scope.serializeMembersCounting rest defined input)

end

section

variable (scope : Scope)

mutual

/-- With the depth in the state, a serializer is generated as with the depth as an argument. -/
theorem serializeCounting_eq (type : Ty) (input : Expr) :
    scope.serializeCounting type input = counted fun depth => scope.serialize type depth input := by
  cases type with
  | mk kind aliasName =>
    simp only [serializeCounting, serialize]
    exact serializeKindCounting_eq kind aliasName input

/-- The same for a kind of type, by induction on it. -/
theorem serializeKindCounting_eq (kind : TyKind) (aliasName : Option String) (input : Expr) :
    scope.serializeKindCounting kind aliasName input =
      counted fun depth => scope.serializeKind kind aliasName depth input := by
  cases kind with
  | array element =>
    simp only [serializeKindCounting, serializeKind, serializeCounting_eq element,
      nested_counted, pure_counted, bind_counted, binding_counted]
  | tuple elements =>
    simp only [serializeKindCounting, serializeKind, serializeElementsCounting_eq elements,
      pure_counted, bind_counted]
  | object properties =>
    simp only [serializeKindCounting, serializeKind, serializeEntriesCounting_eq properties,
      serializePropertiesCounting_eq properties, pure_counted, bind_counted, ite_counted]
  | record value =>
    simp only [serializeKindCounting, serializeKind, serializeCounting_eq value,
      nested_counted, pure_counted, bind_counted, binding_counted]
  | union members =>
    simp only [serializeKindCounting, serializeKind, serializeMembersCounting_eq members,
      pure_counted, bind_counted]
  | _ => simp only [serializeKindCounting, serializeKind, flat_counted]

/-- The same for the parts of tuple elements. -/
theorem serializeElementsCounting_eq (elements : List Ty) (input : Expr) (position : Nat) :
    scope.serializeElementsCounting elements input position =
      counted fun depth => scope.serializeElements elements depth input position := by
  cases elements with
  | nil => simp only [serializeElementsCounting, serializeElements, pure_counted]
  | cons element rest =>
    simp only [serializeElementsCounting, serializeElements, serializeCounting_eq element,
      serializeElementsCounting_eq rest, pure_counted, bind_counted]

/-- The same for the parts of properties that are all there. -/
theorem serializePropertiesCounting_eq (properties : List TyProperty) (input : Expr)
    (first : Bool) : scope.serializePropertiesCounting properties input first =
      counted fun depth => scope.serializeProperties properties depth input first := by
  cases properties with
  | nil => simp only [serializePropertiesCounting, serializeProperties, pure_counted]
  | cons property rest =>
    obtain ⟨name, type, optional, _⟩ := property
    simp only [serializePropertiesCounting, serializeProperties, serializeCounting_eq type,
      serializePropertiesCounting_eq rest, pure_counted, bind_counted]

/-- The same for the entries of properties that may be absent. -/
theorem serializeEntriesCounting_eq (properties : List TyProperty) (input : Expr) :
    scope.serializeEntriesCounting properties input =
      counted fun depth => scope.serializeEntries properties depth input := by
  cases properties with
  | nil => simp only [serializeEntriesCounting, serializeEntries, pure_counted]
  | cons property rest =>
    obtain ⟨name, type, optional, _⟩ := property
    simp only [serializeEntriesCounting, serializeEntries, serializeDefinedCounting_eq type,
      serializeEntriesCounting_eq rest, pure_counted, bind_counted]

/-- The same for a value that is not undefined. -/
theorem serializeDefinedCounting_eq (type : Ty) (input : Expr) :
    scope.serializeDefinedCounting type input =
      counted fun depth => scope.serializeDefined type depth input := by
  obtain ⟨kind, aliasName⟩ := type
  cases kind with
  | union members =>
    simp only [serializeDefinedCounting, serializeDefined]
    generalize (members.filter fun member => !member.isUndefined) = kept
    match kept with
    | [] => rfl
    | [_] => exact serializeOnlyCounting_eq members input
    | _ :: _ :: _ =>
      simp only [serializeMembersCounting_eq members, pure_counted, bind_counted]
  | _ =>
    simp only [serializeDefinedCounting, serializeDefined]
    exact serializeKindCounting_eq _ aliasName input

/-- The same for the only member that is left. -/
theorem serializeOnlyCounting_eq (members : List Ty) (input : Expr) :
    scope.serializeOnlyCounting members input =
      counted fun depth => scope.serializeOnly members depth input := by
  cases members with
  | nil => simp only [serializeOnlyCounting, serializeOnly, pure_counted]
  | cons member rest =>
    simp only [serializeOnlyCounting, serializeOnly, serializeCounting_eq member,
      serializeOnlyCounting_eq rest, ite_counted]

/-- The same for the branches of a union. -/
theorem serializeMembersCounting_eq (members : List Ty) (defined : Bool) (input : Expr) :
    scope.serializeMembersCounting members defined input =
      counted fun depth => scope.serializeMembers members defined depth input := by
  cases members with
  | nil => simp only [serializeMembersCounting, serializeMembers, pure_counted]
  | cons member rest =>
    simp only [serializeMembersCounting, serializeMembers, checkCounting_eq,
      serializeCounting_eq member, serializeMembersCounting_eq rest, pure_counted, bind_counted,
      ite_counted]

end

end

/-! ## Helpers -/

/-- The closure of a helper. -/
def helperClosureCounting (scope : Scope) (helper : Helper) (definition : Ty) : Counting Expr :=
  let input := Expr.identifier "input"
  match helper.kind with
  | .check => .lambda ["input"] <$> scope.checkCounting definition input
  | .serialize => .lambda ["input"] <$> scope.serializeCounting definition input
  | .validate => .lambda ["input", "path"] <$>
      scope.validateCounting definition input (.identifier "path") helper.typeName

/-- Generates the helpers that wait, and those that they ask for in turn, at most `fuel` of them. -/
def drainCounting (scope : Scope) : Nat → Counting (List (Helper × Expr))
  | 0 => return []
  | fuel + 1 => do
    match (← get).registry.nextPending with
    | none => return []
    | some (helper, registry) =>
      modify fun context => { context with registry }
      match scope.definitions.get? helper.typeName with
      | none => scope.drainCounting fuel
      | some definition => do
        let closure ← scope.helperClosureCounting helper definition
        return (helper, closure) :: (← scope.drainCounting fuel)

section

variable (scope : Scope)

/-- The same for the closure of a helper. -/
theorem helperClosureCounting_eq (helper : Helper) (definition : Ty) :
    scope.helperClosureCounting helper definition =
      counted fun depth => scope.helperClosure depth helper definition := by
  obtain ⟨kind, index, typeName⟩ := helper
  cases kind with
  | check =>
    simp only [helperClosureCounting, helperClosure, checkCounting_eq]
    rfl
  | serialize =>
    simp only [helperClosureCounting, helperClosure, serializeCounting_eq]
    rfl
  | validate =>
    simp only [helperClosureCounting, helperClosure, validateCounting_eq]
    rfl

/-- The same for the helpers that are pending. -/
theorem drainCounting_eq (fuel : Nat) :
    scope.drainCounting fuel = counted fun depth => scope.drainWithin depth fuel := by
  induction fuel with
  | zero => rfl
  | succ fuel ih =>
    refine funext fun context => ?_
    change (scope.drainCounting (fuel + 1)).run context =
      (counted fun depth => scope.drainWithin depth (fuel + 1)).run context
    rw [run_counted]
    cases hpending : context.registry.nextPending with
    | none =>
      simp only [drainCounting, drainWithin, StateT.run_bind, StateT.run_get, pure_bind, hpending]
      rfl
    | some entry =>
      obtain ⟨helper, rest⟩ := entry
      cases hdefinition : scope.definitions.get? helper.typeName with
      | none =>
        simp only [drainCounting, drainWithin, StateT.run_bind, StateT.run_get, pure_bind,
          hpending, hdefinition, ih]
        rfl
      | some definition =>
        simp only [drainCounting, drainWithin, StateT.run_bind, StateT.run_get, pure_bind,
          hpending, hdefinition, ih, helperClosureCounting_eq]
        rfl

end

end Scope

end TypedRoutes
