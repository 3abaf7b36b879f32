import TypedRoutes.Source.Resolver

/-!
# Recorded answers

A snapshot holds what was recorded about one file: the declarations of its decorator factories, the
types of expressions by their printed text, and the definitions of named types. An expression that
was not recorded gets the type that its form alone implies.
-/

namespace TypedRoutes

/-- Recorded answers. A symbol without declaration is one whose signature is known to have none. -/
structure Snapshot where
  symbols : KeyMap (Option Declaration) := .empty
  values : KeyMap Ty := .empty
  definitions : TypeTable := .empty
  deriving Inhabited

/-- A type that refers to a name without definition. -/
structure UnknownReference where
  referencedBy : String
  name : String
  deriving DecidableEq, Repr

/-- What is wrong with a snapshot, in words. -/
def UnknownReference.message (unknown : UnknownReference) : String :=
  "Type '" ++ unknown.referencedBy ++ "' references unknown type '" ++ unknown.name ++ "'"

namespace Snapshot

/-- The first name that a type refers to and that has no definition. -/
def unknownIn? (snapshot : Snapshot) (type : Ty) : Option String :=
  type.references.find? fun name => !snapshot.definitions.contains name

/-- The first entry with an unknown reference, and the reference. -/
def unknownAmong? (snapshot : Snapshot) (entries : List (String × Ty)) : Option UnknownReference :=
  entries.findSome? fun entry =>
    (snapshot.unknownIn? entry.2).map fun name => ⟨entry.1, name⟩

/-- The first of the names that the definitions miss, and the first definition that refers to it. -/
def unknownDefinition? (snapshot : Snapshot) : Option UnknownReference :=
  snapshot.definitions.dangling.head?.map fun name =>
    ⟨(snapshot.definitions.referrer? name).getD "", name⟩

/-- The first unknown reference, definitions before values, each in key order. -/
def unknownReference? (snapshot : Snapshot) : Option UnknownReference :=
  snapshot.unknownDefinition?.or (snapshot.unknownAmong? snapshot.values.entries)

/-- The recorded type of an expression, or else one of the given kind. -/
def recordedOr (snapshot : Snapshot) (expr : Expr) (kind : TyKind) : Ty :=
  (snapshot.values.get? (expr.print {})).getD kind.type

/-- Whether a type is a text or a literal text. -/
def isText (type : Ty) : Bool :=
  match type.kind with
  | .string | .literalString _ => true
  | _ => false

/-- What a binary operator yields; addition with a text operand concatenates. -/
def operationKind (op : BinaryOp) (left right : Ty) : TyKind :=
  match op with
  | .plus => if isText left || isText right then .string else .number
  | .and | .or => .any
  | .strictEqual | .strictNotEqual | .instanceOf => .boolean

mutual

/-- The type of an expression: as recorded, or as its form implies. -/
def typeAt (snapshot : Snapshot) : Expr → Ty
  | .string value => snapshot.recordedOr (.string value) (.literalString value)
  | .number value => snapshot.recordedOr (.number value) (.literalNumber value)
  | .boolean value => snapshot.recordedOr (.boolean value) (.literalBoolean value)
  | .null => snapshot.recordedOr .null .null
  | .identifier name => snapshot.recordedOr (.identifier name)
    (if name = "undefined" then .undefined else .any)
  | .object entries => snapshot.recordedOr (.object entries)
      (.object (snapshot.propertiesAt entries))
  | .array elements => snapshot.recordedOr (.array elements) (.array (snapshot.elementAt elements))
  | .arrow params body => snapshot.recordedOr (.arrow params body) .function
  | .unary op operand => snapshot.recordedOr (.unary op operand)
    (match op with | .not => .boolean | .typeOf => .string)
  | .binary op left right => snapshot.recordedOr (.binary op left right)
    (operationKind op (snapshot.typeAt left) (snapshot.typeAt right))
  | .property target name => snapshot.recordedOr (.property target name) .any
  | .element target index => snapshot.recordedOr (.element target index) .any
  | .call callee typeArguments arguments span =>
    snapshot.recordedOr (.call callee typeArguments arguments span) .any
  | .conditional condition whenTrue whenFalse =>
    snapshot.recordedOr (.conditional condition whenTrue whenFalse) .any

/-- The properties of an object literal. -/
def propertiesAt (snapshot : Snapshot) : List Entry → List TyProperty
  | [] => []
  | .mk key value :: rest =>
    .mk key (snapshot.typeAt value) false none :: snapshot.propertiesAt rest

/-- The element type of an array literal: that of its first element. -/
def elementAt (snapshot : Snapshot) : List Expr → Ty
  | [] => TyKind.any.type
  | first :: _ => snapshot.typeAt first

end

/-- The resolver that answers from a snapshot. A call is resolved by the leftmost identifier of its
callee. -/
def resolver (snapshot : Snapshot) : Resolver where
  signature? call := do
    let root ← call.callee.rootIdentifier?
    let declaration? ← snapshot.symbols.get? root
    return ⟨declaration?⟩
  typeAt := snapshot.typeAt
  flags := TypeFlags.classify snapshot.definitions
  definition? := snapshot.definitions.get?
  names := snapshot.definitions.keys
  covers _ := KeyMap.mem_keys_of_contains

end Snapshot

end TypedRoutes
