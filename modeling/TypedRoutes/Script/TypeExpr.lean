import TypedRoutes.Text.Identifier
import TypedRoutes.Text.Quoted

/-!
# Type expressions

The written form of a type, as it stands in an annotation, and its text. Parentheses are inserted
where the text would otherwise group differently: around a union or an intersection that is the
element of an array, and around a union inside an intersection.
-/

namespace TypedRoutes

mutual

/-- The written form of a type. -/
inductive TypeExpr where
  /-- A built-in name such as `string`. -/
  | keyword (name : String)
  /-- A literal type; its text is already in written form. -/
  | literal (text : String)
  /-- A named type, with type arguments or without. -/
  | reference (name : String) (arguments : List TypeExpr)
  | array (element : TypeExpr)
  | tuple (elements : List TypeExpr)
  | object (members : List TypeMember)
  | union (types : List TypeExpr)
  | intersection (types : List TypeExpr)

/-- A member of an object type, optional when it is declared with a question mark. -/
inductive TypeMember where
  | mk (name : String) (optional : Bool) (type : TypeExpr)

end

instance : Inhabited TypeExpr := ⟨.keyword ""⟩

/-- A key is written bare when it is an identifier and quoted otherwise. -/
def keyText (key : String) : String :=
  if isIdentifier key then key else quoteText key

/-- Whether the text needs parentheses as the element of an array type. -/
def TypeExpr.isComposite : TypeExpr → Bool
  | .union _ | .intersection _ => true
  | _ => false

/-- Whether the text needs parentheses as a part of an intersection. -/
def TypeExpr.isUnion : TypeExpr → Bool
  | .union _ => true
  | _ => false

/-- Parentheses around a text, where they are needed. -/
def grouped (needed : Bool) (text : String) : String :=
  if needed then "(" ++ text ++ ")" else text

mutual

/-- The text of a type expression. -/
def TypeExpr.text : TypeExpr → String
  | .keyword name => name
  | .literal text => text
  | .reference name [] => name
  | .reference name (first :: rest) =>
    name ++ "<" ++ separated ", " (first.text :: TypeExpr.texts rest) ++ ">"
  | .array element => grouped element.isComposite element.text ++ "[]"
  | .tuple elements => "[" ++ separated ", " (TypeExpr.texts elements) ++ "]"
  | .object [] => "\x7b\x7d"
  | .object (first :: rest) =>
    "\x7b " ++ separated "; " (first.text :: TypeMember.texts rest) ++ " \x7d"
  | .union types => separated " | " (TypeExpr.texts types)
  | .intersection types => separated " & " (TypeExpr.partTexts types)

/-- The texts of several type expressions. -/
def TypeExpr.texts : List TypeExpr → List String
  | [] => []
  | type :: rest => type.text :: TypeExpr.texts rest

/-- The texts of the parts of an intersection. -/
def TypeExpr.partTexts : List TypeExpr → List String
  | [] => []
  | type :: rest => grouped type.isUnion type.text :: TypeExpr.partTexts rest

/-- The text of a member: key, question mark, type. -/
def TypeMember.text : TypeMember → String
  | .mk name optional type =>
    keyText name ++ (if optional then "?" else "") ++ ": " ++ type.text

/-- The texts of several members. -/
def TypeMember.texts : List TypeMember → List String
  | [] => []
  | member :: rest => member.text :: TypeMember.texts rest

end

/-- Several texts are the texts of the single expressions. -/
theorem TypeExpr.texts_eq_map (types : List TypeExpr) :
    TypeExpr.texts types = types.map TypeExpr.text := by
  induction types with
  | nil => rfl
  | cons type rest ih => simp [TypeExpr.texts, ih]

/-- Several member texts are the texts of the single members. -/
theorem TypeMember.texts_eq_map (members : List TypeMember) :
    TypeMember.texts members = members.map TypeMember.text := by
  induction members with
  | nil => rfl
  | cons member rest ih => simp [TypeMember.texts, ih]

/-- In an intersection exactly the unions are put in parentheses. -/
theorem TypeExpr.partTexts_eq_map (types : List TypeExpr) :
    TypeExpr.partTexts types = types.map fun type => grouped type.isUnion type.text := by
  induction types with
  | nil => rfl
  | cons type rest ih => simp [TypeExpr.partTexts, ih]

end TypedRoutes
