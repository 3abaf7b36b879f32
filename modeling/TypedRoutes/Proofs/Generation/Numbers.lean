import TypedRoutes.Proofs.Generation.Requests
import TypedRoutes.Proofs.Script.Composition
import TypedRoutes.Proofs.Unit.Moderate

/-!
# Numbers in generated code

The numbers in generated code are the literals of types and the lengths and positions of tuples. So
they have a property if the literals have it and so have all lengths up to that of the longest
tuple.
-/

namespace TypedRoutes

/-- Whether the numbers in an expression have a property. -/
def Expr.Every (P : Float → Prop) (expr : Expr) : Prop := TypedRoutes.Every P expr.numbers

/-- Whether the numbers in a statement have a property. -/
def Stmt.Every (P : Float → Prop) (statement : Stmt) : Prop := TypedRoutes.Every P statement.numbers

variable {P : Float → Prop}

namespace Expr.Every

variable {target index callee left right condition whenTrue whenFalse body : Expr}
  {exprs arguments : List Expr} {params : List String}

/-- A name holds no number. -/
theorem identifier (name : String) : (Expr.identifier name).Every P := every_nil

theorem string (text : String) : (Expr.string text).Every P := every_nil

theorem boolean (value : Bool) : (Expr.boolean value).Every P := every_nil

theorem null : Expr.null.Every P := every_nil

/-- A whole number holds itself. -/
theorem natural {n : Nat} (h : P (Float.ofNat n)) : (Expr.natural n).Every P :=
  every_singleton.mpr h

theorem property (h : target.Every P) (key : String) : (Expr.property target key).Every P := h

theorem element (h : target.Every P) (hi : index.Every P) : (Expr.element target index).Every P :=
  every_append.mpr ⟨h, hi⟩

/-- An access by name holds the numbers of its target, however the name is written. -/
theorem member (h : target.Every P) (key : String) : (Expr.member target key).Every P := by
  rw [Expr.member]
  split
  · exact h.property key
  · exact h.element (.string key)

theorem unary (op : UnaryOp) (h : target.Every P) : (Expr.unary op target).Every P := h

theorem binary (op : BinaryOp) (hl : left.Every P) (hr : right.Every P) :
    (Expr.binary op left right).Every P :=
  every_append.mpr ⟨hl, hr⟩

theorem conditional (h : condition.Every P) (ht : whenTrue.Every P) (hf : whenFalse.Every P) :
    (Expr.conditional condition whenTrue whenFalse).Every P :=
  every_append.mpr ⟨every_append.mpr ⟨h, ht⟩, hf⟩

/-- An array holds the numbers of its elements. -/
theorem array (h : ∀ element ∈ exprs, element.Every P) : (Expr.array exprs).Every P :=
  every_numbersOf.mpr h

/-- An object holds the numbers of its values. -/
theorem objectOf {entries : List (String × Expr)} (h : ∀ entry ∈ entries, entry.2.Every P) :
    (Expr.objectOf entries).Every P := by
  refine every_entries.mpr fun entry hentry => ?_
  obtain ⟨member, hmember, rfl⟩ := List.mem_map.mp hentry
  exact h member hmember

/-- A call holds the numbers of the function and of the arguments. -/
theorem invoke (h : callee.Every P) (ha : ∀ argument ∈ arguments, argument.Every P) :
    (Expr.invoke callee arguments).Every P :=
  every_append.mpr ⟨h, every_numbersOf.mpr ha⟩

/-- A closure holds the numbers of its body. -/
theorem lambda (params : List String) (h : body.Every P) : (Expr.lambda params body).Every P := h

theorem lambdaBlock (params : List String) {statements : List Stmt}
    (h : ∀ statement ∈ statements, statement.Every P) :
    (Expr.lambdaBlock params statements).Every P :=
  every_statements.mpr h

/-- Joining expressions brings in no numbers. -/
theorem composes : Expr.Composes (Expr.Every P) where
  string := string
  boolean := boolean
  binary := every_append

/-- A conjunction holds the numbers of its conditions. -/
theorem conjunction (h : ∀ expr ∈ exprs, expr.Every P) : (Expr.conjunction exprs).Every P :=
  composes.conjunction h

/-- A disjunction holds the numbers of its conditions. -/
theorem disjunction (h : ∀ expr ∈ exprs, expr.Every P) : (Expr.disjunction exprs).Every P :=
  composes.disjunction h

/-- A concatenation holds the numbers of its parts. -/
theorem concatenation (h : ∀ expr ∈ exprs, expr.Every P) : (Expr.concatenation exprs).Every P :=
  composes.concatenation h

/-- A test of the run-time type brings in no number. -/
theorem isOfType (name : String) (h : target.Every P) : (Expr.isOfType name target).Every P :=
  .binary _ (.string name) (.unary _ h)

/-- A comparison with undefined brings in no number. -/
theorem isUndefined (h : target.Every P) : (Expr.equals .undefined target).Every P :=
  .binary _ (.identifier _) h

/-- A test for an array brings in no number. -/
theorem isArray (h : target.Every P) : (Expr.isArray target).Every P :=
  .invoke (.property (.identifier "Array") _) (List.forall_mem_singleton.mpr h)

/-- The tests for an object bring in no number. -/
theorem objectConditions (h : target.Every P) :
    ∀ condition ∈ Expr.objectConditions target, condition.Every P :=
  List.forall_mem_cons.mpr ⟨.isOfType _ h, List.forall_mem_singleton.mpr (.binary _ .null h)⟩

/-- A call of the standard serializer brings in no number. -/
theorem standardJson (h : target.Every P) : (Expr.standardJson target).Every P :=
  .invoke (.property (.identifier "JSON") _) (List.forall_mem_singleton.mpr h)

/-- A call of a method with a closure. -/
theorem traverse (h : target.Every P) (key : String) (params : List String) (hb : body.Every P) :
    (Expr.invoke (.property target key) [.lambda params body]).Every P :=
  .invoke (h.property key) (List.forall_mem_singleton.mpr (hb.lambda params))

/-- A call of one of the standard functions on objects. -/
theorem ofObject (key : String) (h : target.Every P) :
    (Expr.invoke (.property (.identifier "Object") key) [target]).Every P :=
  .invoke (.property (.identifier "Object") key) (List.forall_mem_singleton.mpr h)

end Expr.Every

/-- A conditional statement has the numbers of its condition and of both blocks. -/
theorem Stmt.Every.branch {condition : Expr} {consequent alternative : List Stmt}
    (h : condition.Every P) (ht : ∀ statement ∈ consequent, statement.Every P)
    (hf : ∀ statement ∈ alternative, statement.Every P) :
    (Stmt.branch condition consequent alternative).Every P :=
  every_append.mpr ⟨every_append.mpr ⟨h, every_statements.mpr ht⟩,
    every_statements.mpr hf⟩

namespace Scope

open Generate

variable {scope : Scope} {limit : Nat}

/-- A scope that brings no number into generated code but those of moderate types, where all lengths
up to the limit have the property. -/
structure Moderate (scope : Scope) (P : Float → Prop) (limit : Nat) : Prop where
  lengths : ∀ n ≤ limit, P (Float.ofNat n)
  factory : scope.factory.Every P
  definitions : ∀ {name type}, scope.definitions.get? name = some type → type.Moderate P limit

/-- A call of a helper brings in no number. -/
theorem every_callHelper (kind : HelperKind) (name : String) {arguments : List Expr}
    {otherwise : Expr} (h : ∀ argument ∈ arguments, argument.Every P) (ho : otherwise.Every P) :
    Ensures (fun result => (result.getD otherwise).Every P)
      (scope.callHelper kind name arguments) := by
  rw [callHelper]
  split
  · exact .pure ho
  · exact fun registry => .invoke (.identifier _) h

/-! ## Checks -/

mutual

/-- A check holds the literals of its type, and lengths and positions below the limit. -/
theorem every_check (hs : scope.Moderate P limit) (type : Ty) (hmoderate : type.Moderate P limit)
    (depth : Nat) {input : Expr} (h : input.Every P) :
    Ensures (Expr.Every P) (scope.check type depth input) := by
  cases type with
  | mk kind _ =>
    rw [check]
    exact every_checkKind hs kind hmoderate depth h

/-- The same for a kind of type, by induction on it: only literals and tuples bring in numbers. -/
theorem every_checkKind (hs : scope.Moderate P limit) (kind : TyKind)
    (hmoderate : kind.Moderate P limit) (depth : Nat) {input : Expr} (h : input.Every P) :
    Ensures (Expr.Every P) (scope.checkKind kind depth input) := by
  cases kind with
  | string | boolean | bigInt | function =>
    rw [checkKind]
    exact .pure (h.isOfType _)
  | number =>
    rw [checkKind]
    have hfinite : (Expr.invoke (.property (.identifier "Number") "isFinite") [input]).Every P :=
      .invoke (.property (.identifier "Number") _) (List.forall_mem_singleton.mpr h)
    exact .pure (.conjunction (List.forall_mem_cons.mpr
      ⟨h.isOfType _, List.forall_mem_singleton.mpr hfinite⟩))
  | null =>
    rw [checkKind]
    exact .pure (.binary _ .null h)
  | undefined | void =>
    rw [checkKind]
    exact .pure h.isUndefined
  | literalString value =>
    rw [checkKind]
    exact .pure (.binary _ (.string value) h)
  | literalNumber value =>
    rw [checkKind]
    exact .pure (.binary _ (every_singleton.mpr hmoderate) h)
  | literalBoolean value =>
    rw [checkKind]
    exact .pure (.binary _ (.boolean value) h)
  | never | any | unknown | promise | internal =>
    rw [checkKind]
    exact .pure (.boolean _)
  | date =>
    rw [checkKind]
    exact .pure (.binary _ h (.identifier "Date"))
  | array element =>
    rw [checkKind]
    refine .bind (every_check hs element hmoderate (depth + 1) (.identifier _))
      fun condition hcondition => ?_
    split
    · exact .pure h.isArray
    · exact .pure (.conjunction (List.forall_mem_cons.mpr
        ⟨h.isArray, List.forall_mem_singleton.mpr (h.traverse _ _ hcondition)⟩))
  | tuple elements =>
    rw [checkKind]
    refine .bind (every_checkElements hs elements hmoderate.2 0
      (by rw [Nat.zero_add]; exact hmoderate.1) depth h) fun conditions hconditions => ?_
    exact .pure (.conjunction (List.forall_mem_cons.mpr ⟨h.isArray, List.forall_mem_cons.mpr
      ⟨.binary _ (.natural (hs.lengths _ hmoderate.1)) (h.property _), hconditions⟩⟩))
  | object properties =>
    rw [checkKind]
    refine .bind (every_checkProperties hs properties hmoderate depth h)
      fun conditions hconditions => ?_
    exact .pure (.conjunction (List.forall_mem_append.mpr ⟨h.objectConditions, hconditions⟩))
  | record value =>
    rw [checkKind]
    refine .bind (every_check hs value hmoderate (depth + 1) (.identifier _))
      fun condition hcondition => ?_
    split
    · exact .pure (.conjunction h.objectConditions)
    · exact .pure (.conjunction (List.forall_mem_append.mpr ⟨h.objectConditions,
        List.forall_mem_singleton.mpr ((h.ofObject "values").traverse _ _ hcondition)⟩))
  | reference name =>
    rw [checkKind]
    exact .bind (every_callHelper .check name (List.forall_mem_singleton.mpr h) (.boolean true))
      fun _ hresult => .pure hresult
  | union members =>
    rw [checkKind]
    exact .bind (every_checkMembers hs members hmoderate depth h)
      fun _ hconditions => .pure (.disjunction hconditions)
  | intersection members =>
    rw [checkKind]
    exact .bind (every_checkMembers hs members hmoderate depth h)
      fun _ hconditions => .pure (.conjunction hconditions)

/-- The checks of tuple elements bring in their positions. -/
theorem every_checkElements (hs : scope.Moderate P limit) (elements : List Ty)
    (hmoderate : Ty.AllModerate P limit elements) (position : Nat)
    (hlength : position + elements.length ≤ limit) (depth : Nat) {input : Expr}
    (h : input.Every P) :
    Ensures (fun conditions => ∀ condition ∈ conditions, condition.Every P)
      (scope.checkElements elements depth input position) := by
  cases elements with
  | nil =>
    rw [checkElements]
    exact .pure (by simp)
  | cons element rest =>
    rw [List.length_cons] at hlength
    have hposition : P (Float.ofNat position) := hs.lengths position (by omega)
    rw [checkElements]
    exact .bind (every_check hs element hmoderate.1 depth (h.element (.natural hposition)))
      fun _ hfirst => .bind
        (every_checkElements hs rest hmoderate.2 (position + 1) (by omega) depth h) fun _ hrest =>
          .pure (List.forall_mem_cons.mpr ⟨hfirst, hrest⟩)

/-- The checks of properties bring in nothing of their own. -/
theorem every_checkProperties (hs : scope.Moderate P limit) (properties : List TyProperty)
    (hmoderate : TyProperty.AllModerate P limit properties) (depth : Nat) {input : Expr}
    (h : input.Every P) :
    Ensures (fun conditions => ∀ condition ∈ conditions, condition.Every P)
      (scope.checkProperties properties depth input) := by
  cases properties with
  | nil =>
    rw [checkProperties]
    exact .pure (by simp)
  | cons property rest =>
    obtain ⟨name, type, optional, _⟩ := property
    rw [checkProperties]
    have hvalue := h.member name
    refine .bind (every_check hs type hmoderate.1 depth hvalue) fun condition hcondition => ?_
    refine .bind (every_checkProperties hs rest hmoderate.2 depth h)
      fun conditions hconditions => ?_
    refine .pure (List.forall_mem_cons.mpr ⟨?_, hconditions⟩)
    split
    · exact .disjunction (List.forall_mem_cons.mpr
        ⟨hvalue.isUndefined, List.forall_mem_singleton.mpr hcondition⟩)
    · exact hcondition

/-- The checks of members bring in nothing of their own. -/
theorem every_checkMembers (hs : scope.Moderate P limit) (members : List Ty)
    (hmoderate : Ty.AllModerate P limit members) (depth : Nat) {input : Expr} (h : input.Every P) :
    Ensures (fun conditions => ∀ condition ∈ conditions, condition.Every P)
      (scope.checkMembers members depth input) := by
  cases members with
  | nil =>
    rw [checkMembers]
    exact .pure (by simp)
  | cons member rest =>
    rw [checkMembers]
    exact .bind (every_check hs member hmoderate.1 depth h) fun _ hfirst =>
      .bind (every_checkMembers hs rest hmoderate.2 depth h) fun _ hrest =>
        .pure (List.forall_mem_cons.mpr ⟨hfirst, hrest⟩)

end

/-! ## Validators -/

section

variable {condition path input head : Expr} {items : List Expr}

/-- A report brings in no number. -/
theorem every_orReport (h : condition.Every P) (hp : path.Every P) (hi : input.Every P)
    (expected : String) : (orReport condition path expected input).Every P := by
  have hreport : (reportMismatch path expected input).Every P := by
    refine .invoke (.identifier _) ?_
    simp only [List.forall_mem_cons]
    exact ⟨hp, .string expected, hi, by simp⟩
  exact .disjunction (List.forall_mem_cons.mpr ⟨h, List.forall_mem_singleton.mpr hreport⟩)

/-- A reported test for an object brings in no number. -/
theorem every_objectHead (hp : path.Every P) (hi : input.Every P) (expected : String) :
    (objectHead path expected input).Every P :=
  every_orReport (.conjunction hi.objectConditions) hp hi expected

/-- A test of all flags brings in no number. -/
theorem every_everyFlag (h : input.Every P) : (everyFlag input).Every P :=
  h.traverse _ _ (.identifier "flag")

/-- The combination of conditions brings in no number. -/
theorem every_combine (h : head.Every P) (hs : ∀ item ∈ items, item.Every P) :
    (combine head items).Every P := by
  rw [combine]
  split
  · exact h
  · exact .conjunction (List.forall_mem_cons.mpr ⟨h,
      List.forall_mem_singleton.mpr (every_everyFlag (.array hs))⟩)

/-- A computed step of a path brings in no number. -/
theorem every_indexed {step : Expr} (hp : path.Every P) (hs : step.Every P) :
    (indexed path step).Every P := by
  refine .concatenation ?_
  simp only [List.forall_mem_cons]
  exact ⟨hp, .string _, hs, .string _, by simp⟩

/-- A literal step of a path is a text and brings in no number. -/
theorem every_step (hp : path.Every P) (text : String) :
    (Expr.concatenation [path, .string text]).Every P :=
  .concatenation (List.forall_mem_cons.mpr ⟨hp, List.forall_mem_singleton.mpr (.string text)⟩)

end

mutual

/-- A validator holds the literals of its type, and lengths and positions below the limit. -/
theorem every_validate (hs : scope.Moderate P limit) (type : Ty) (hmoderate : type.Moderate P limit)
    (depth : Nat) (expected : String) {input path : Expr} (h : input.Every P) (hp : path.Every P) :
    Ensures (Expr.Every P) (scope.validate type depth input path expected) := by
  cases type with
  | mk kind _ =>
    rw [validate]
    exact every_validateKind hs kind hmoderate depth expected h hp

/-- The same for a kind of type, by induction on it. -/
theorem every_validateKind (hs : scope.Moderate P limit) (kind : TyKind)
    (hmoderate : kind.Moderate P limit) (depth : Nat) (expected : String) {input path : Expr}
    (h : input.Every P) (hp : path.Every P) :
    Ensures (Expr.Every P) (scope.validateKind kind depth input path expected) := by
  cases kind with
  | reference name =>
    rw [validateKind]
    exact .bind (every_callHelper .validate name (by simp [h, hp]) (.boolean true))
      fun _ hresult => .pure hresult
  | array element =>
    rw [validateKind]
    have hhead := every_orReport h.isArray hp h expected
    refine .bind (every_validate hs element hmoderate (depth + 1) _ (.identifier _)
      (every_indexed hp (.identifier _))) fun item hitem => ?_
    split
    · exact .pure hhead
    · exact .pure (.conjunction (List.forall_mem_cons.mpr ⟨hhead,
        List.forall_mem_singleton.mpr (every_everyFlag (h.traverse _ _ hitem))⟩))
  | tuple elements =>
    rw [validateKind]
    refine .bind (every_validateElements hs elements hmoderate.2 0
      (by rw [Nat.zero_add]; exact hmoderate.1) depth h hp) fun items hitems => ?_
    have hshape := Expr.Every.conjunction (List.forall_mem_cons.mpr ⟨h.isArray,
      List.forall_mem_singleton.mpr (.binary .strictEqual
        (.natural (hs.lengths _ hmoderate.1)) (h.property "length"))⟩)
    exact .pure (every_combine (every_orReport hshape hp h expected) hitems)
  | object properties =>
    rw [validateKind]
    exact .bind (every_validateProperties hs properties hmoderate depth h hp) fun _ hitems =>
      .pure (every_combine (every_objectHead hp h expected) hitems)
  | record value =>
    rw [validateKind]
    have hhead := every_objectHead hp h expected
    refine .bind (every_validate hs value hmoderate (depth + 1) _ (h.element (.identifier _))
      (every_indexed hp (.standardJson (.identifier _)))) fun item hitem => ?_
    split
    · exact .pure hhead
    · exact .pure (.conjunction (List.forall_mem_cons.mpr ⟨hhead, List.forall_mem_singleton.mpr
        (every_everyFlag ((h.ofObject "keys").traverse _ _ hitem))⟩))
  | _ =>
    rw [validateKind]
    · refine .bind (every_checkKind hs _ hmoderate depth h) fun condition hcondition => ?_
      split
      · exact .pure hcondition
      · exact .pure (every_orReport hcondition hp h expected)
    all_goals
      intros
      contradiction

/-- The validators of tuple elements bring in their positions. -/
theorem every_validateElements (hs : scope.Moderate P limit) (elements : List Ty)
    (hmoderate : Ty.AllModerate P limit elements) (position : Nat)
    (hlength : position + elements.length ≤ limit) (depth : Nat) {input path : Expr}
    (h : input.Every P) (hp : path.Every P) :
    Ensures (fun items => ∀ item ∈ items, item.Every P)
      (scope.validateElements elements depth input path position) := by
  cases elements with
  | nil =>
    rw [validateElements]
    exact .pure (by simp)
  | cons element rest =>
    rw [List.length_cons] at hlength
    have hposition : P (Float.ofNat position) := hs.lengths position (by omega)
    rw [validateElements]
    refine .bind (every_validate hs element hmoderate.1 depth _ (h.element (.natural hposition))
      (every_step hp _)) fun item hitem => ?_
    refine .bind (every_validateElements hs rest hmoderate.2 (position + 1) (by omega) depth h hp)
      fun items hitems => .pure ?_
    split
    · exact hitems
    · exact List.forall_mem_cons.mpr ⟨hitem, hitems⟩

/-- The validators of properties bring in nothing of their own. -/
theorem every_validateProperties (hs : scope.Moderate P limit) (properties : List TyProperty)
    (hmoderate : TyProperty.AllModerate P limit properties) (depth : Nat) {input path : Expr}
    (h : input.Every P) (hp : path.Every P) :
    Ensures (fun items => ∀ item ∈ items, item.Every P)
      (scope.validateProperties properties depth input path) := by
  cases properties with
  | nil =>
    rw [validateProperties]
    exact .pure (by simp)
  | cons property rest =>
    obtain ⟨name, type, optional, _⟩ := property
    rw [validateProperties]
    have hvalue := h.member name
    refine .bind (every_validate hs type hmoderate.1 depth _ hvalue (every_step hp _))
      fun item hitem => ?_
    refine .bind (every_validateProperties hs rest hmoderate.2 depth h hp)
      fun items hitems => .pure ?_
    split
    · exact hitems
    · refine List.forall_mem_cons.mpr ⟨?_, hitems⟩
      split
      · exact .disjunction (List.forall_mem_cons.mpr
          ⟨hvalue.isUndefined, List.forall_mem_singleton.mpr hitem⟩)
      · exact hitem

end

/-! ## Serializers -/

section

variable {input : Expr}

/-- A call of the factory holds the numbers of the factory and of the arguments. -/
theorem every_runtime (hs : scope.Moderate P limit) (name : String) {arguments : List Expr}
    (h : ∀ argument ∈ arguments, argument.Every P) :
    (Expr.invoke (scope.runtime name) arguments).Every P :=
  .invoke (hs.factory.property name) h

/-- Joined texts hold the numbers of the list. -/
theorem every_bracketed (h : input.Every P) (opening closing : String) :
    (bracketed opening input closing).Every P := by
  refine .concatenation ?_
  simp only [List.forall_mem_cons]
  exact ⟨.string _, .invoke (h.property "join") (List.forall_mem_singleton.mpr (.string ",")),
    .string _, by simp⟩

/-- The filter of a list brings in no number. -/
theorem every_present {entries : List Expr} (h : ∀ entry ∈ entries, entry.Every P) :
    (present entries).Every P :=
  (Expr.Every.array h).traverse _ _ (.binary _ (.identifier _) (.identifier "str"))

/-- A choice holds the numbers of its branches. -/
theorem every_choose {branches : List (Expr × Expr)} {otherwise : Expr}
    (h : ∀ branch ∈ branches, branch.1.Every P ∧ branch.2.Every P) (ho : otherwise.Every P) :
    (choose branches otherwise).Every P := by
  rw [choose]
  induction branches with
  | nil => exact ho
  | cons branch branches ih =>
    obtain ⟨⟨hcondition, htext⟩, hrest⟩ := List.forall_mem_cons.mp h
    rw [List.foldr_cons]
    split
    · exact htext
    · exact .conditional hcondition htext (ih hrest)

/-- The call behind the members of a union names the type in a text. -/
theorem every_noMatch (hs : scope.Moderate P limit) (type : Ty) (h : input.Every P) :
    (scope.noMatch type input).Every P := by
  refine every_runtime hs "throws" (List.forall_mem_singleton.mpr (.objectOf ?_))
  exact List.forall_mem_cons.mpr ⟨.string _, List.forall_mem_singleton.mpr h⟩

/-- Parts between brackets hold the numbers of the parts. -/
theorem every_enclosed {parts : List Expr} (h : ∀ part ∈ parts, part.Every P)
    (opening closing : String) :
    (Expr.concatenation (.string opening :: parts ++ [.string closing])).Every P := by
  refine .concatenation ?_
  simp only [List.cons_append, List.forall_mem_cons, List.forall_mem_append]
  exact ⟨.string _, h, .string _, by simp⟩

end

mutual

/-- A serializer holds positions below the limit only; literals are written as texts. -/
theorem every_serialize (hs : scope.Moderate P limit) (type : Ty)
    (hmoderate : type.Moderate P limit)
    (depth : Nat) {input : Expr} (h : input.Every P) :
    Ensures (Expr.Every P) (scope.serialize type depth input) := by
  cases type with
  | mk kind aliasName =>
    rw [serialize]
    exact every_serializeKind hs kind hmoderate aliasName depth h

/-- The same for a kind of type, by induction on it. -/
theorem every_serializeKind (hs : scope.Moderate P limit) (kind : TyKind)
    (hmoderate : kind.Moderate P limit) (aliasName : Option String) (depth : Nat) {input : Expr}
    (h : input.Every P) :
    Ensures (Expr.Every P) (scope.serializeKind kind aliasName depth input) := by
  cases kind with
  | string | number =>
    rw [serializeKind]
    exact .pure (every_runtime hs _ (List.forall_mem_singleton.mpr h))
  | boolean =>
    rw [serializeKind]
    exact .pure (.invoke (.identifier "String") (List.forall_mem_singleton.mpr h))
  | null | literalString | literalNumber | literalBoolean =>
    rw [serializeKind]
    exact .pure (.string _)
  | date =>
    rw [serializeKind]
    have htext : (Expr.invoke (.property input "toJSON") []).Every P :=
      .invoke (h.property _) (by simp)
    exact .pure (every_runtime hs _ (List.forall_mem_singleton.mpr htext))
  | array element =>
    rw [serializeKind]
    exact .bind (every_serialize hs element hmoderate (depth + 1) (.identifier _))
      fun _ htext => .pure (every_bracketed (h.traverse _ _ htext) _ _)
  | tuple elements =>
    rw [serializeKind]
    exact .bind (every_serializeElements hs elements hmoderate.2 0
      (by rw [Nat.zero_add]; exact hmoderate.1) depth h)
        fun _ hparts => .pure (every_enclosed hparts _ _)
  | object properties =>
    rw [serializeKind]
    split
    · exact .bind (every_serializeEntries hs properties hmoderate depth h) fun _ hentries =>
        .pure (every_bracketed (every_present hentries) _ _)
    · exact .bind (every_serializeProperties hs properties hmoderate true depth h)
        fun _ hparts => .pure (every_enclosed hparts _ _)
  | record value =>
    rw [serializeKind]
    refine .bind (every_serialize hs value hmoderate (depth + 1) (h.element (.identifier _)))
      fun text htext => .pure (every_bracketed ((h.ofObject "keys").traverse _ _ ?_) _ _)
    refine .concatenation ?_
    simp only [List.forall_mem_cons]
    exact ⟨every_runtime hs "string" (List.forall_mem_singleton.mpr (.identifier _)),
      .string _, htext, by simp⟩
  | reference name =>
    rw [serializeKind]
    exact .bind (every_callHelper .serialize name (List.forall_mem_singleton.mpr h)
      h.standardJson) fun _ hresult => .pure hresult
  | union members =>
    rw [serializeKind]
    exact .bind (every_serializeMembers hs members hmoderate false depth h) fun _ hbranches =>
      .pure (every_choose hbranches (every_noMatch hs _ h))
  | _ =>
    rw [serializeKind]
    exact .pure h.standardJson

/-- The parts for tuple elements bring in their positions. -/
theorem every_serializeElements (hs : scope.Moderate P limit) (elements : List Ty)
    (hmoderate : Ty.AllModerate P limit elements) (position : Nat)
    (hlength : position + elements.length ≤ limit) (depth : Nat) {input : Expr}
    (h : input.Every P) :
    Ensures (fun texts => ∀ text ∈ texts, text.Every P)
      (scope.serializeElements elements depth input position) := by
  cases elements with
  | nil =>
    rw [serializeElements]
    exact .pure (by simp)
  | cons element rest =>
    rw [List.length_cons] at hlength
    have hposition : P (Float.ofNat position) := hs.lengths position (by omega)
    rw [serializeElements]
    refine .bind (every_serialize hs element hmoderate.1 depth (h.element (.natural hposition)))
      fun text htext => ?_
    refine .bind (every_serializeElements hs rest hmoderate.2 (position + 1) (by omega) depth h)
      fun texts htexts => .pure ?_
    split
    · exact List.forall_mem_cons.mpr ⟨htext, htexts⟩
    · exact List.forall_mem_cons.mpr ⟨.string _, List.forall_mem_cons.mpr ⟨htext, htexts⟩⟩

/-- The parts for properties that are all there bring in nothing of their own. -/
theorem every_serializeProperties (hs : scope.Moderate P limit) (properties : List TyProperty)
    (hmoderate : TyProperty.AllModerate P limit properties) (first : Bool) (depth : Nat)
    {input : Expr} (h : input.Every P) :
    Ensures (fun texts => ∀ text ∈ texts, text.Every P)
      (scope.serializeProperties properties depth input first) := by
  cases properties with
  | nil =>
    rw [serializeProperties]
    exact .pure (by simp)
  | cons property rest =>
    obtain ⟨name, type, optional, _⟩ := property
    rw [serializeProperties]
    exact .bind (every_serialize hs type hmoderate.1 depth (h.member name)) fun _ htext =>
      .bind (every_serializeProperties hs rest hmoderate.2 false depth h) fun _ htexts =>
        .pure (List.forall_mem_cons.mpr ⟨.string _, List.forall_mem_cons.mpr ⟨htext, htexts⟩⟩)

/-- The entries for properties that may be absent bring in nothing of their own. -/
theorem every_serializeEntries (hs : scope.Moderate P limit) (properties : List TyProperty)
    (hmoderate : TyProperty.AllModerate P limit properties) (depth : Nat) {input : Expr}
    (h : input.Every P) :
    Ensures (fun entries => ∀ entry ∈ entries, entry.Every P)
      (scope.serializeEntries properties depth input) := by
  cases properties with
  | nil =>
    rw [serializeEntries]
    exact .pure (by simp)
  | cons property rest =>
    obtain ⟨name, type, optional, _⟩ := property
    rw [serializeEntries]
    have hvalue := h.member name
    refine .bind (every_serializeDefined hs type hmoderate.1 depth hvalue) fun text htext => ?_
    refine .bind (every_serializeEntries hs rest hmoderate.2 depth h) fun entries hentries => ?_
    have hentry : (Expr.concatenation [.string (Json.quote name ++ ":"), text]).Every P :=
      .concatenation (List.forall_mem_cons.mpr ⟨.string _, List.forall_mem_singleton.mpr htext⟩)
    refine .pure (List.forall_mem_cons.mpr ⟨?_, hentries⟩)
    split
    · exact .conditional hvalue.isUndefined (.identifier _) hentry
    · exact hentry

/-- The serializer of a value that is not undefined brings in nothing of its own. -/
theorem every_serializeDefined (hs : scope.Moderate P limit) (type : Ty)
    (hmoderate : type.Moderate P limit) (depth : Nat) {input : Expr} (h : input.Every P) :
    Ensures (Expr.Every P) (scope.serializeDefined type depth input) := by
  obtain ⟨kind, aliasName⟩ := type
  cases kind with
  | union members =>
    rw [serializeDefined]
    split
    · exact .pure h.standardJson
    · exact every_serializeOnly hs members hmoderate depth h
    · exact .bind (every_serializeMembers hs members hmoderate true depth h) fun _ hbranches =>
        .pure (every_choose hbranches (every_noMatch hs _ h))
  | _ =>
    rw [serializeDefined]
    · exact every_serializeKind hs _ hmoderate aliasName depth h
    · intros
      contradiction

/-- The serializer of the only member that is left brings in nothing of its own. -/
theorem every_serializeOnly (hs : scope.Moderate P limit) (members : List Ty)
    (hmoderate : Ty.AllModerate P limit members) (depth : Nat) {input : Expr} (h : input.Every P) :
    Ensures (Expr.Every P) (scope.serializeOnly members depth input) := by
  cases members with
  | nil =>
    rw [serializeOnly]
    exact .pure h.standardJson
  | cons member rest =>
    rw [serializeOnly]
    split
    · exact every_serializeOnly hs rest hmoderate.2 depth h
    · exact every_serialize hs member hmoderate.1 depth h

/-- The branches of a union bring in nothing of their own. -/
theorem every_serializeMembers (hs : scope.Moderate P limit) (members : List Ty)
    (hmoderate : Ty.AllModerate P limit members) (defined : Bool) (depth : Nat) {input : Expr}
    (h : input.Every P) :
    Ensures (fun branches => ∀ branch ∈ branches, branch.1.Every P ∧ branch.2.Every P)
      (scope.serializeMembers members defined depth input) := by
  cases members with
  | nil =>
    rw [serializeMembers]
    exact .pure (by simp)
  | cons member rest =>
    rw [serializeMembers]
    split
    · exact every_serializeMembers hs rest hmoderate.2 defined depth h
    · exact .bind (every_check hs member hmoderate.1 depth h) fun _ hcondition =>
        .bind (every_serialize hs member hmoderate.1 depth h) fun _ htext =>
          .bind (every_serializeMembers hs rest hmoderate.2 defined depth h) fun _ hbranches =>
            .pure (List.forall_mem_cons.mpr ⟨⟨hcondition, htext⟩, hbranches⟩)

end

/-! ## Closures -/

/-- The closure of a helper holds the numbers that its definition brings in. -/
theorem every_helperClosure (hs : scope.Moderate P limit) (depth : Nat) (helper : Helper)
    {definition : Ty} (hmoderate : definition.Moderate P limit) :
    Ensures (Expr.Every P) (scope.helperClosure depth helper definition) := by
  have hi : Expr.Every P (.identifier "input") := .identifier "input"
  rw [helperClosure]
  cases helper.kind with
  | check =>
    exact .bind (every_check hs definition hmoderate depth hi) fun _ hbody =>
      .pure (hbody.lambda _)
  | serialize =>
    exact .bind (every_serialize hs definition hmoderate depth hi) fun _ hbody =>
      .pure (hbody.lambda _)
  | validate =>
    exact .bind (every_validate hs definition hmoderate depth _ hi (.identifier "path"))
      fun _ hbody => .pure (hbody.lambda _)

/-- The closures of pending helpers do, one round after the other. -/
theorem every_drainWithin (hs : scope.Moderate P limit) (depth fuel : Nat) :
    Ensures (fun generated => ∀ entry ∈ generated, entry.2.Every P)
      (scope.drainWithin depth fuel) := by
  induction fuel with
  | zero => exact .pure (by simp)
  | succ fuel ih =>
    rw [drainWithin]
    refine Ensures.trivial.bind fun registry _ => ?_
    split
    · exact .pure (by simp)
    · rename_i helper next hnext
      refine Ensures.trivial.bind fun _ _ => ?_
      split
      · exact ih
      · rename_i definition hget
        exact .bind (every_helperClosure hs depth helper (hs.definitions hget)) fun _ hclosure =>
          .bind ih fun _ hrest => .pure (List.forall_mem_cons.mpr ⟨hclosure, hrest⟩)

/-- The declarations of all helpers do. -/
theorem every_drain (hs : scope.Moderate P limit) (depth : Nat) :
    Ensures (fun statements => ∀ statement ∈ statements, statement.Every P)
      (scope.drain depth) := by
  refine .bind (every_drainWithin hs depth _) fun generated hgenerated => .pure ?_
  intro statement hstatement
  obtain ⟨entry, hentry, rfl⟩ := List.mem_map.mp hstatement
  exact hgenerated entry (List.mem_mergeSort.mp hentry)

/-- There are no numbers in the declarations of a report. -/
theorem every_reportDeclarations : ∀ statement ∈ reportDeclarations, statement.Every P := by
  simp only [reportDeclarations, List.forall_mem_cons]
  exact ⟨every_nil, every_nil, by simp⟩

/-- The statements of a mode do, those that declare helpers and those that use them. -/
theorem every_body (hs : scope.Moderate P limit) (mode : Mode) (type : Ty)
    (hmoderate : type.Moderate P limit) :
    Ensures (fun parts => (∀ statement ∈ parts.1, statement.Every P) ∧
      ∀ statement ∈ parts.2, statement.Every P) (scope.body mode type) := by
  have hi : input.Every P := .identifier "input"
  cases mode with
  | stringify =>
    exact .bind (every_serialize hs type hmoderate 0 hi) fun _ htext =>
      .pure ⟨by simp, List.forall_mem_singleton.mpr htext⟩
  | is =>
    refine .bind (every_check hs type hmoderate 0 hi) fun condition hcondition =>
      .bind (every_serialize hs type hmoderate 0 hi) fun text htext =>
        .pure ⟨by simp, List.forall_mem_singleton.mpr ?_⟩
    change Expr.Every P (if _ then _ else _)
    split
    · exact htext
    · exact .conditional hcondition htext .null
  | assert =>
    refine .bind (every_check hs type hmoderate 0 hi) fun condition hcondition =>
      .bind (every_serialize hs type hmoderate 0 hi) fun text htext =>
        .pure ⟨by simp, List.forall_mem_append.mpr ⟨?_, List.forall_mem_singleton.mpr htext⟩⟩
    split
    · simp
    · have herror : (scope.guardError type).Every P := by
        refine every_runtime hs "guard" (List.forall_mem_singleton.mpr (.objectOf ?_))
        exact List.forall_mem_cons.mpr ⟨.string _, List.forall_mem_singleton.mpr hi⟩
      exact List.forall_mem_singleton.mpr (.branch hcondition
        (List.forall_mem_singleton.mpr herror) (by simp))
  | validate =>
    refine .bind (every_validate hs type hmoderate 0 _ hi (.string "$input"))
      fun success hsuccess => .bind (every_serialize hs type hmoderate 0 hi) fun text htext =>
        .pure ⟨every_reportDeclarations, List.forall_mem_cons.mpr
          ⟨hsuccess, List.forall_mem_singleton.mpr ?_⟩⟩
    have hreport : (Expr.objectOf [("success", .identifier "success"),
        ("data", .conditional (.identifier "success") text .null),
        ("errors", .identifier "errors")]).Every P := by
      refine .objectOf ?_
      simp only [List.forall_mem_cons]
      exact ⟨.identifier _, .conditional (.identifier _) htext .null, .identifier _, by simp⟩
    exact hreport

/-- The closure of a mode holds no other numbers than that. -/
theorem every_closure (hs : scope.Moderate P limit) (mode : Mode) (type : Ty)
    (hmoderate : type.Moderate P limit) : Ensures (Expr.Every P) (scope.closure mode type) :=
  .bind (every_body hs mode type hmoderate) fun _ hparts =>
    .bind (every_drain hs 0) fun _ hhelpers =>
      .pure (.lambdaBlock _ (List.forall_mem_append.mpr
        ⟨List.forall_mem_append.mpr ⟨hparts.1, hhelpers⟩, hparts.2⟩))

end Scope

/-- The numbers in the artifact for a moderate type have the property. -/
theorem every_artifact {definitions : TypeTable} {factory : Expr} {limit : Nat}
    (hs : (Scope.mk factory definitions).Moderate P limit) (mode : Mode) {type : Ty}
    (hmoderate : type.Moderate P limit) : (artifact definitions factory mode type).Every P :=
  .objectOf (List.forall_mem_cons.mpr ⟨.string mode.name, List.forall_mem_singleton.mpr
    (Scope.every_closure hs mode type hmoderate .empty)⟩)

end TypedRoutes
