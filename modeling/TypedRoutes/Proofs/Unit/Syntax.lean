import TypedRoutes.Proofs.Json.Printing
import TypedRoutes.Unit.Decode
import TypedRoutes.Unit.Encode

/-!
# Syntax that is read back

The JSON forms of type expressions, expressions, bodies and statements are read back as what they
were written from, whatever fields were left out. One level of the budget is spent for every tagged
record, so the nesting of the written form is budget enough.
-/

namespace TypedRoutes

open Json

namespace Json

variable {shape : String} {members : List (String × Json)} {names : List String} {budget : Nat}

/-- The tag of an object is found where no other member has its key. -/
theorem tagged?_taggedJson (h : ∀ member ∈ members, member.1 ≠ "kind") :
    tagged? names (taggedJson shape members) = some (shape, taggedJson shape members) := by
  have hnamed : membersNamed "kind" members = [] := by
    rw [membersNamed, List.filter_eq_nil_iff.mpr (by simpa using h), List.map_nil]
  rw [membersNamed] at hnamed
  rw [taggedJson, tagged?, membersNamed, List.filter_cons_of_pos (by simp), List.map_cons, hnamed]
  rfl

/-- A budget that admits a record leaves one level less for what its members hold. -/
theorem nesting_object {first : String × Json}
    (h : (Json.object (first :: members)).nesting ≤ budget) :
    ∃ inner, budget = inner + 1 ∧ ∀ member ∈ members, member.2.nesting ≤ inner := by
  rw [nesting] at h
  refine ⟨budget - 1, by omega, fun member hmem => ?_⟩
  have hle := nestingOfMembers_le.mp (Nat.le_of_lt_succ (Nat.lt_succ_of_le
    (Nat.le_sub_of_add_le h))) member (List.mem_cons_of_mem _ hmem)
  exact hle

/-- Lists inside it leave one level less than that, which is still enough. -/
theorem nesting_items {items : List Json} (h : (Json.array items).nesting ≤ budget) :
    nestingOfItems items ≤ budget := by
  rw [nesting] at h
  omega

/-- A member that occurs once is read wherever it stands. -/
theorem required?_object {α : Type} {read : Json → Option α} {members : List (String × Json)}
    {name : String} (position : Nat) (value : Json) (h : membersNamed name members = [value]) :
    (Json.object members).required? read name position = read value := by
  rw [required?, field?, h]
  rfl

theorem fits_object (members : List (String × Json)) (fields : Nat) :
    fits (.object members) fields = true := rfl

/-- A list that is left out when it is empty leaves what it holds enough of the budget. -/
theorem nesting_unlessEmpty {key : String} {items : List Json}
    (h : ∀ member ∈ memberUnlessEmpty key items, member.2.nesting ≤ budget) :
    nestingOfItems items ≤ budget := by
  cases items with
  | nil => exact Nat.zero_le budget
  | cons first rest => exact nesting_items (h _ (List.mem_singleton.mpr rfl))

/-- Members are asked for by name, and so is a list that may have been left out. -/
theorem filter_memberUnlessEmpty (key name : String) (items : List Json) :
    ((memberUnlessEmpty key items).filter fun member => member.1 == name) =
      if key = name then memberUnlessEmpty key items else [] := by
  cases items with
  | nil => split <;> rfl
  | cons first rest =>
    simp only [memberUnlessEmpty, List.isEmpty_cons, Bool.false_eq_true, if_false,
      List.filter_cons, List.filter_nil, beq_iff_eq]

/-- A list is read back whether or not it was left out. -/
theorem defaulted?_taggedJson {α : Type} {read : Json → Option α} {key : String}
    {items : List Json} {values : List α} (position : Nat)
    (hnamed : membersNamed key (("kind", .string shape) :: members) =
      (memberUnlessEmpty key items).map Prod.snd)
    (hread : items.mapM read = some values) :
    (taggedJson shape members).defaulted? (list? read) [] key position = some values := by
  rw [taggedJson, defaulted?, field?, hnamed]
  cases items <;> exact hread

end Json

/-! ## Type expressions -/

mutual

/-- A type expression is read back from its JSON form within its nesting. -/
theorem TypeExpr.ofJson?_toJson {budget : Nat} : ∀ {type : TypeExpr},
    type.toJson.nesting ≤ budget → TypeExpr.ofJson? budget type.toJson = some type
  | .keyword name, h => by
    obtain ⟨budget, rfl, -⟩ := nesting_object h
    rw [TypeExpr.ofJson?, TypeExpr.toJson, tagged?_taggedJson (by simp)]
    dsimp only [Option.bind_eq_bind, Option.bind_some]
    simp [taggedJson, required?, field?, membersNamed, fits, text?]
  | .literal text, h => by
    obtain ⟨budget, rfl, -⟩ := nesting_object h
    rw [TypeExpr.ofJson?, TypeExpr.toJson, tagged?_taggedJson (by simp)]
    dsimp only [Option.bind_eq_bind, Option.bind_some]
    simp [taggedJson, required?, field?, membersNamed, fits, text?]
  | .reference name arguments, h => by
    obtain ⟨budget, rfl, hparts⟩ := nesting_object h
    have harguments := TypeExpr.ofJson?_toJsons (nesting_unlessEmpty fun member hmem =>
      hparts member (List.mem_cons_of_mem _ hmem))
    rw [TypeExpr.ofJson?, TypeExpr.toJson, tagged?_taggedJson (by simp [memberUnlessEmpty])]
    dsimp only [Option.bind_eq_bind, Option.bind_some]
    rw [defaulted?_taggedJson 1 (by simp [membersNamed, filter_memberUnlessEmpty]) harguments]
    simp [taggedJson, required?, field?, membersNamed, filter_memberUnlessEmpty, fits, text?]
  | .array element, h => by
    obtain ⟨budget, rfl, hparts⟩ := nesting_object h
    have helement := TypeExpr.ofJson?_toJson (hparts ("element", element.toJson) (by simp))
    rw [TypeExpr.ofJson?, TypeExpr.toJson, tagged?_taggedJson (by simp)]
    dsimp only [Option.bind_eq_bind, Option.bind_some]
    simp [taggedJson, required?, field?, membersNamed, fits, helement]
  | .tuple elements, h => by
    obtain ⟨budget, rfl, hparts⟩ := nesting_object h
    have helements := TypeExpr.ofJson?_toJsons (nesting_items
      (hparts ("elements", .array (TypeExpr.toJsons elements)) (by simp)))
    rw [TypeExpr.ofJson?, TypeExpr.toJson, tagged?_taggedJson (by simp)]
    dsimp only [Option.bind_eq_bind, Option.bind_some]
    simp [taggedJson, required?, field?, membersNamed, fits, list?, helements]
  | .object members, h => by
    obtain ⟨budget, rfl, hparts⟩ := nesting_object h
    have hmembers := TypeMember.ofJson?_toJsons (nesting_items
      (hparts ("members", .array (TypeMember.toJsons members)) (by simp)))
    rw [TypeExpr.ofJson?, TypeExpr.toJson, tagged?_taggedJson (by simp)]
    dsimp only [Option.bind_eq_bind, Option.bind_some, Option.pure_def] at hmembers ⊢
    simp [taggedJson, required?_object 0 (.array (TypeMember.toJsons members)), membersNamed,
      fits_object, list?, hmembers]
  | .union types, h => by
    obtain ⟨budget, rfl, hparts⟩ := nesting_object h
    have htypes := TypeExpr.ofJson?_toJsons (nesting_items
      (hparts ("types", .array (TypeExpr.toJsons types)) (by simp)))
    rw [TypeExpr.ofJson?, TypeExpr.toJson, tagged?_taggedJson (by simp)]
    dsimp only [Option.bind_eq_bind, Option.bind_some]
    simp [taggedJson, required?, field?, membersNamed, fits, list?, htypes]
  | .intersection types, h => by
    obtain ⟨budget, rfl, hparts⟩ := nesting_object h
    have htypes := TypeExpr.ofJson?_toJsons (nesting_items
      (hparts ("types", .array (TypeExpr.toJsons types)) (by simp)))
    rw [TypeExpr.ofJson?, TypeExpr.toJson, tagged?_taggedJson (by simp)]
    dsimp only [Option.bind_eq_bind, Option.bind_some]
    simp [taggedJson, required?, field?, membersNamed, fits, list?, htypes]

/-- The same for several type expressions. -/
theorem TypeExpr.ofJson?_toJsons {budget : Nat} : ∀ {types : List TypeExpr},
    nestingOfItems (TypeExpr.toJsons types) ≤ budget →
      (TypeExpr.toJsons types).mapM (TypeExpr.ofJson? budget) = some types
  | [], _ => rfl
  | type :: rest, h => by
    rw [TypeExpr.toJsons, nestingOfItems, Nat.max_le] at h
    rw [TypeExpr.toJsons, List.mapM_cons, TypeExpr.ofJson?_toJson h.1,
      TypeExpr.ofJson?_toJsons h.2]
    rfl

/-- The same for the members of an object type. -/
theorem TypeMember.ofJson?_toJsons {budget : Nat} : ∀ {members : List TypeMember},
    nestingOfItems (TypeMember.toJsons members) ≤ budget →
      ((TypeMember.toJsons members).mapM fun json => do
        guard (fits json 3)
        return TypeMember.mk (← json.required? text? "name" 0)
          (← json.defaulted? truth? false "optional" 1)
          (← json.required? (TypeExpr.ofJson? budget) "ty" 2)) = some members
  | [], _ => rfl
  | .mk name optional type :: rest, h => by
    rw [TypeMember.toJsons, nestingOfItems, Nat.max_le] at h
    have htype : type.toJson.nesting ≤ budget := by
      have hmember := h.1
      simp only [nesting, nestingOfMembers] at hmember
      omega
    have hread := TypeExpr.ofJson?_toJson htype
    rw [TypeMember.toJsons, List.mapM_cons, TypeMember.ofJson?_toJsons h.2]
    simp [required?, defaulted?, field?, membersNamed, fits, text?, truth?, hread]

end

/-! ## Expressions and statements -/

/-- A unary operator is read back from its name. -/
theorem UnaryOp.ofJson?_jsonName (op : UnaryOp) :
    UnaryOp.ofJson? (.string op.jsonName) = some op := by
  cases op <;> rfl

/-- A binary operator is read back from its name. -/
theorem BinaryOp.ofJson?_jsonName (op : BinaryOp) :
    BinaryOp.ofJson? (.string op.jsonName) = some op := by
  cases op <;> rfl

/-- An offset is read back from the number it is written as. -/
theorem offset?_natural (offset : UInt32) : offset? (.natural offset.toNat) = some offset := by
  rw [offset?, if_pos offset.toNat_lt]
  simp

/-- A span is read back. -/
theorem Span.ofJson?_toJson (span : Span) : Span.ofJson? span.toJson = some span := by
  rw [Span.ofJson?, Span.toJson]
  simp [required?, field?, membersNamed, fits, offset?_natural]

/-- Texts are read back. -/
theorem mapM_text? (texts : List String) :
    (texts.map Json.string).mapM text? = some texts := by
  induction texts with
  | nil => rfl
  | cons first rest ih =>
    rw [List.map_cons, List.mapM_cons, ih]
    rfl

mutual

/-- An expression is read back from its JSON form within its nesting: each shape from the members
that it is written with, parts by induction. -/
theorem Expr.ofJson?_toJson {budget : Nat} : ∀ {expr : Expr},
    expr.toJson.nesting ≤ budget → Expr.ofJson? budget expr.toJson = some expr
  | .identifier name, h => by
    obtain ⟨budget, rfl, -⟩ := nesting_object h
    rw [Expr.ofJson?, Expr.toJson, tagged?_taggedJson (by simp)]
    dsimp only [Option.bind_eq_bind, Option.bind_some]
    simp [taggedJson, required?, field?, membersNamed, fits, text?]
  | .property target name, h => by
    obtain ⟨budget, rfl, hparts⟩ := nesting_object h
    have htarget := Expr.ofJson?_toJson (hparts ("object", target.toJson) (by simp))
    rw [Expr.ofJson?, Expr.toJson, tagged?_taggedJson (by simp)]
    dsimp only [Option.bind_eq_bind, Option.bind_some]
    simp [taggedJson, required?, field?, membersNamed, fits, text?, htarget]
  | .element target index, h => by
    obtain ⟨budget, rfl, hparts⟩ := nesting_object h
    have htarget := Expr.ofJson?_toJson (hparts ("object", target.toJson) (by simp))
    have hindex := Expr.ofJson?_toJson (hparts ("index", index.toJson) (by simp))
    rw [Expr.ofJson?, Expr.toJson, tagged?_taggedJson (by simp)]
    dsimp only [Option.bind_eq_bind, Option.bind_some]
    simp [taggedJson, required?, field?, membersNamed, fits, htarget, hindex]
  | .call callee typeArguments arguments span, h => by
    obtain ⟨budget, rfl, hparts⟩ := nesting_object h
    have hcallee := Expr.ofJson?_toJson (hparts ("callee", callee.toJson) (by simp))
    have harguments := Expr.ofJson?_toJsons (nesting_items
      (hparts ("arguments", .array (Expr.toJsons arguments)) (by simp)))
    have htypes := TypeExpr.ofJson?_toJsons (nesting_unlessEmpty fun member hmem =>
      hparts member (List.mem_cons_of_mem _ (List.mem_append_left _ hmem)))
    have hspan := Span.ofJson?_toJson span
    rw [Expr.ofJson?, Expr.toJson, tagged?_taggedJson (by grind [memberUnlessEmpty])]
    dsimp only [Option.bind_eq_bind, Option.bind_some]
    rw [defaulted?_taggedJson 1 (by simp [membersNamed, filter_memberUnlessEmpty]) htypes]
    simp [taggedJson, required?, defaulted?, field?, membersNamed, filter_memberUnlessEmpty, fits,
      list?, hcallee, harguments, hspan]
  | .string value, h => by
    obtain ⟨budget, rfl, -⟩ := nesting_object h
    rw [Expr.ofJson?, Expr.toJson, tagged?_taggedJson (by simp)]
    dsimp only [Option.bind_eq_bind, Option.bind_some]
    simp [taggedJson, required?, field?, membersNamed, fits, text?]
  | .number value, h => by
    obtain ⟨budget, rfl, -⟩ := nesting_object h
    rw [Expr.ofJson?, Expr.toJson, tagged?_taggedJson (by simp)]
    dsimp only [Option.bind_eq_bind, Option.bind_some]
    simp [taggedJson, required?, field?, membersNamed, fits, float?]
  | .boolean value, h => by
    obtain ⟨budget, rfl, -⟩ := nesting_object h
    rw [Expr.ofJson?, Expr.toJson, tagged?_taggedJson (by simp)]
    dsimp only [Option.bind_eq_bind, Option.bind_some]
    simp [taggedJson, required?, field?, membersNamed, fits, truth?]
  | .null, h => by
    obtain ⟨budget, rfl, -⟩ := nesting_object h
    rw [Expr.ofJson?, Expr.toJson, tagged?_taggedJson (by simp)]
    dsimp only [Option.bind_eq_bind, Option.bind_some]
    simp [taggedJson, fits]
  | .object entries, h => by
    obtain ⟨budget, rfl, hparts⟩ := nesting_object h
    have hentries := Entry.ofJson?_toJsons (nesting_items
      (hparts ("properties", .array (Entry.toJsons entries)) (by simp)))
    rw [Expr.ofJson?, Expr.toJson, tagged?_taggedJson (by simp)]
    dsimp only [Option.bind_eq_bind, Option.bind_some, Option.pure_def] at hentries ⊢
    simp [taggedJson, required?_object 0 (.array (Entry.toJsons entries)), membersNamed,
      fits_object, list?, hentries]
  | .array elements, h => by
    obtain ⟨budget, rfl, hparts⟩ := nesting_object h
    have helements := Expr.ofJson?_toJsons (nesting_items
      (hparts ("elements", .array (Expr.toJsons elements)) (by simp)))
    rw [Expr.ofJson?, Expr.toJson, tagged?_taggedJson (by simp)]
    dsimp only [Option.bind_eq_bind, Option.bind_some]
    simp [taggedJson, required?, field?, membersNamed, fits, list?, helements]
  | .arrow params body, h => by
    obtain ⟨budget, rfl, hparts⟩ := nesting_object h
    have hbody := Body.ofJson?_toJson (hparts ("body", body.toJson) (by simp))
    have hparams := mapM_text? params
    rw [Expr.ofJson?, Expr.toJson, tagged?_taggedJson (by simp)]
    dsimp only [Option.bind_eq_bind, Option.bind_some]
    simp [taggedJson, required?, field?, membersNamed, fits, list?, hparams, hbody]
  | .unary op operand, h => by
    obtain ⟨budget, rfl, hparts⟩ := nesting_object h
    have hop := UnaryOp.ofJson?_jsonName op
    have hoperand := Expr.ofJson?_toJson (hparts ("operand", operand.toJson) (by simp))
    rw [Expr.ofJson?, Expr.toJson, tagged?_taggedJson (by simp)]
    dsimp only [Option.bind_eq_bind, Option.bind_some]
    simp [taggedJson, required?, field?, membersNamed, fits, hop, hoperand]
  | .binary op left right, h => by
    obtain ⟨budget, rfl, hparts⟩ := nesting_object h
    have hop := BinaryOp.ofJson?_jsonName op
    have hleft := Expr.ofJson?_toJson (hparts ("left", left.toJson) (by simp))
    have hright := Expr.ofJson?_toJson (hparts ("right", right.toJson) (by simp))
    rw [Expr.ofJson?, Expr.toJson, tagged?_taggedJson (by simp)]
    dsimp only [Option.bind_eq_bind, Option.bind_some]
    simp [taggedJson, required?, field?, membersNamed, fits, hop, hleft, hright]
  | .conditional condition whenTrue whenFalse, h => by
    obtain ⟨budget, rfl, hparts⟩ := nesting_object h
    have hcondition := Expr.ofJson?_toJson (hparts ("condition", condition.toJson) (by simp))
    have htrue := Expr.ofJson?_toJson (hparts ("when_true", whenTrue.toJson) (by simp))
    have hfalse := Expr.ofJson?_toJson (hparts ("when_false", whenFalse.toJson) (by simp))
    rw [Expr.ofJson?, Expr.toJson, tagged?_taggedJson (by simp)]
    dsimp only [Option.bind_eq_bind, Option.bind_some]
    simp [taggedJson, required?, field?, membersNamed, fits, hcondition, htrue, hfalse]

/-- The same for several expressions. -/
theorem Expr.ofJson?_toJsons {budget : Nat} : ∀ {exprs : List Expr},
    nestingOfItems (Expr.toJsons exprs) ≤ budget →
      (Expr.toJsons exprs).mapM (Expr.ofJson? budget) = some exprs
  | [], _ => rfl
  | expr :: rest, h => by
    rw [Expr.toJsons, nestingOfItems, Nat.max_le] at h
    rw [Expr.toJsons, List.mapM_cons, Expr.ofJson?_toJson h.1, Expr.ofJson?_toJsons h.2]
    rfl

/-- The same for the entries of an object. -/
theorem Entry.ofJson?_toJsons {budget : Nat} : ∀ {entries : List Entry},
    nestingOfItems (Entry.toJsons entries) ≤ budget →
      ((Entry.toJsons entries).mapM fun json => do
        guard (fits json 2)
        return Entry.mk (← json.required? text? "key" 0)
          (← json.required? (Expr.ofJson? budget) "value" 1)) = some entries
  | [], _ => rfl
  | .mk key value :: rest, h => by
    rw [Entry.toJsons, nestingOfItems, Nat.max_le] at h
    have hvalue : value.toJson.nesting ≤ budget := by
      have hentry := h.1
      simp only [nesting, nestingOfMembers] at hentry
      omega
    have hread := Expr.ofJson?_toJson hvalue
    rw [Entry.toJsons, List.mapM_cons, Entry.ofJson?_toJsons h.2]
    simp [required?, field?, membersNamed, fits, text?, hread]

/-- The same for the body of a closure. -/
theorem Body.ofJson?_toJson {budget : Nat} : ∀ {body : Body},
    body.toJson.nesting ≤ budget → Body.ofJson? budget body.toJson = some body
  | .concise value, h => by
    obtain ⟨budget, rfl, hparts⟩ := nesting_object h
    have hvalue := Expr.ofJson?_toJson (hparts ("value", value.toJson) (by simp))
    rw [Body.ofJson?, Body.toJson]
    simp [required?, field?, membersNamed, fits, isArray, choice?, hvalue]
  | .block statements, h => by
    obtain ⟨budget, rfl, hparts⟩ := nesting_object h
    have hstatements := Stmt.ofJson?_toJsons (nesting_items
      (hparts ("value", .array (Stmt.toJsons statements)) (by simp)))
    rw [Body.ofJson?, Body.toJson]
    simp [required?, field?, membersNamed, fits, isArray, choice?, list?, hstatements]

/-- The same for several statements. -/
theorem Stmt.ofJson?_toJsons {budget : Nat} : ∀ {statements : List Stmt},
    nestingOfItems (Stmt.toJsons statements) ≤ budget →
      (Stmt.toJsons statements).mapM (Stmt.ofJson? budget) = some statements
  | [], _ => rfl
  | statement :: rest, h => by
    rw [Stmt.toJsons, nestingOfItems, Nat.max_le] at h
    rw [Stmt.toJsons, List.mapM_cons, Stmt.ofJson?_toJson h.1, Stmt.ofJson?_toJsons h.2]
    rfl

/-- The same for a statement, shape by shape. -/
theorem Stmt.ofJson?_toJson {budget : Nat} : ∀ {statement : Stmt},
    statement.toJson.nesting ≤ budget → Stmt.ofJson? budget statement.toJson = some statement
  | .const name value, h => by
    obtain ⟨budget, rfl, hparts⟩ := nesting_object h
    have hvalue := Expr.ofJson?_toJson (hparts ("init", value.toJson) (by simp))
    rw [Stmt.ofJson?, Stmt.toJson, tagged?_taggedJson (by simp)]
    dsimp only [Option.bind_eq_bind, Option.bind_some]
    simp [taggedJson, required?, field?, membersNamed, fits, text?, hvalue]
  | .branch condition consequent alternative, h => by
    obtain ⟨budget, rfl, hparts⟩ := nesting_object h
    have hcondition := Expr.ofJson?_toJson (hparts ("condition", condition.toJson) (by simp))
    have hconsequent := Stmt.ofJson?_toJsons (nesting_items
      (hparts ("then", .array (Stmt.toJsons consequent)) (by simp)))
    have halternative := Stmt.ofJson?_toJsons (nesting_unlessEmpty fun member hmem =>
      hparts member (List.mem_cons_of_mem _ (List.mem_cons_of_mem _ hmem)))
    rw [Stmt.ofJson?, Stmt.toJson, tagged?_taggedJson (by simp [memberUnlessEmpty])]
    dsimp only [Option.bind_eq_bind, Option.bind_some]
    rw [defaulted?_taggedJson 2 (by simp [membersNamed, filter_memberUnlessEmpty]) halternative]
    simp [taggedJson, required?, field?, membersNamed, filter_memberUnlessEmpty, fits, list?,
      hcondition, hconsequent]
  | .returns value, h => by
    obtain ⟨budget, rfl, hparts⟩ := nesting_object h
    have hvalue := Expr.ofJson?_toJson (hparts ("value", value.toJson) (by simp))
    rw [Stmt.ofJson?, Stmt.toJson, tagged?_taggedJson (by simp)]
    dsimp only [Option.bind_eq_bind, Option.bind_some]
    simp [taggedJson, required?, field?, membersNamed, fits, hvalue]
  | .throws value, h => by
    obtain ⟨budget, rfl, hparts⟩ := nesting_object h
    have hvalue := Expr.ofJson?_toJson (hparts ("value", value.toJson) (by simp))
    rw [Stmt.ofJson?, Stmt.toJson, tagged?_taggedJson (by simp)]
    dsimp only [Option.bind_eq_bind, Option.bind_some]
    simp [taggedJson, required?, field?, membersNamed, fits, hvalue]
  | .expression value, h => by
    obtain ⟨budget, rfl, hparts⟩ := nesting_object h
    have hvalue := Expr.ofJson?_toJson (hparts ("expr", value.toJson) (by simp))
    rw [Stmt.ofJson?, Stmt.toJson, tagged?_taggedJson (by simp)]
    dsimp only [Option.bind_eq_bind, Option.bind_some]
    simp [taggedJson, required?, field?, membersNamed, fits, hvalue]

end

end TypedRoutes
