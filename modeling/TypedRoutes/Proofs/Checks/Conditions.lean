import TypedRoutes.Proofs.Generation.Stability
import TypedRoutes.Proofs.Runtime.Positions

/-!
# Single conditions

What the conditions decide that checks are put together from: the run-time type, equality with a
literal, and the conditions on containers.
-/

namespace TypedRoutes.Runtime

variable {world : World} {env : Env} {input : Expr} {value : Data}

/-- An equality is one condition, not several joined ones. -/
theorem isSingle_equals (left right : Expr) : (Expr.equals left right).IsSingle := by
  intro op left right h
  cases h
  rfl

/-- An inequality is one condition. -/
theorem isSingle_differs (left right : Expr) : (Expr.differs left right).IsSingle := by
  intro op left right h
  cases h
  rfl

/-- Equality of two data, where it can be told. -/
theorem Decides.equals {left right : Expr} {a b : Data} {result : Bool} {p : Prop}
    (hl : Evaluates world env left (.data a)) (hr : Evaluates world env right (.data b))
    (hab : a.strictEquals? b = some result) (hp : result = true ↔ p) :
    Decides world env (.equals left right) p :=
  .of_evaluates (isSingle_equals left right) hp fun heap => yields_equals (hl heap) (hr heap) hab

/-- Inequality of two data, where it can be told. -/
theorem Decides.differs {left right : Expr} {a b : Data} {result : Bool} {p : Prop}
    (hl : Evaluates world env left (.data a)) (hr : Evaluates world env right (.data b))
    (hab : a.strictEquals? b = some result) (hp : result = false ↔ p) :
    Decides world env (.differs left right) p :=
  .of_evaluates (isSingle_differs left right) (by simpa using hp)
    fun heap => yields_differs (hl heap) (hr heap) hab

/-- The run-time type against a name. -/
theorem Decides.isOfType (name : String) (h : Evaluates world env input (.data value)) :
    Decides world env (.isOfType name input) (value.typeName = name) := by
  refine .equals (.string name) (fun heap => yields_typeOf (h heap)) rfl ?_
  rw [beq_iff_eq]
  exact eq_comm

/-- It can always be told whether a value is undefined. -/
theorem strictEquals?_undefined (value : Data) :
    ∃ result, Data.undefined.strictEquals? value = some result ∧
      (result = true ↔ value = .undefined) := by
  cases value <;> exact ⟨_, rfl, by simp⟩

/-- It can always be told whether a value is null. -/
theorem strictEquals?_null (value : Data) :
    ∃ result, Data.null.strictEquals? value = some result ∧ (result = true ↔ value = .null) := by
  cases value <;> exact ⟨_, rfl, by simp⟩

/-- Equality with undefined, as long as that name is free. -/
theorem Decides.isUndefined (hfree : env.lookup? "undefined" = none)
    (h : Evaluates world env input (.data value)) :
    Decides world env (.equals .undefined input) (value = .undefined) := by
  obtain ⟨result, hequal, hresult⟩ := strictEquals?_undefined value
  exact .equals (.standard hfree rfl) h hequal hresult

/-- Equality with null. -/
theorem Decides.isNull (h : Evaluates world env input (.data value)) :
    Decides world env (.equals .null input) (value = .null) := by
  obtain ⟨result, hequal, hresult⟩ := strictEquals?_null value
  exact .equals .null h hequal hresult

/-- Inequality with null. -/
theorem Decides.isNotNull (h : Evaluates world env input (.data value)) :
    Decides world env (.differs .null input) (value ≠ .null) := by
  obtain ⟨result, hequal, hresult⟩ := strictEquals?_null value
  exact .differs .null h hequal (by rw [ne_eq, ← hresult, Bool.not_eq_true])

/-- Equality with a text. -/
theorem Decides.isString (text : String) (h : Evaluates world env input (.data value)) :
    Decides world env (.equals (.string text) input) (value = .string text) := by
  cases value with
  | string given =>
    exact .equals (.string text) h rfl (by rw [beq_iff_eq, Data.string.injEq, eq_comm])
  | _ => exact .equals (.string text) h rfl (by simp)

/-- Equality with a number, which both zeros share and nothing that is no number has. -/
theorem Decides.isNumber (number : Float) (h : Evaluates world env input (.data value)) :
    Decides world env (.equals (.number number) input)
      (∃ given, value = .number given ∧ (number == given) = true) := by
  cases value with
  | number given => exact .equals (.number number) h rfl (by simp)
  | _ => exact .equals (.number number) h rfl (by simp)

/-- Equality with a flag. -/
theorem Decides.isBoolean (flag : Bool) (h : Evaluates world env input (.data value)) :
    Decides world env (.equals (.boolean flag) input) (value = .boolean flag) := by
  cases value with
  | boolean given =>
    exact .equals (.boolean flag) h rfl (by rw [beq_iff_eq, Data.boolean.injEq, eq_comm])
  | _ => exact .equals (.boolean flag) h rfl (by simp)

/-- The test for an array, as long as its name is free. -/
theorem Decides.isArray (hfree : env.lookup? "Array" = none)
    (h : Evaluates world env input (.data value)) :
    Decides world env (.isArray input) (∃ items, value = .array items) := by
  refine .of_evaluates (isSingle_invoke _ _) ?_ (.isArray hfree h)
  cases value <;> simp [Data.isArray]

/-- The length of an array against a number of elements. -/
theorem Decides.hasLength {items : List Data} (hbound : items.length < arrayBound)
    (h : Evaluates world env input (.data (.array items))) (n : Nat) :
    Decides world env (.equals (.natural n) (.property input "length")) (items.length = n) := by
  refine .equals (.number _) (fun heap => yields_property (h heap) rfl "length") rfl ?_
  rw [position_beq (.inr hbound)]
  exact eq_comm

/-- The test for a finite number. -/
theorem Decides.isFinite (hfree : env.lookup? "Number" = none)
    (h : Evaluates world env input (.data value)) :
    Decides world env (.invoke (.property (.identifier "Number") "isFinite") [input])
      (∃ number, value = .number number ∧ number.isFinite = true) := by
  refine .of_evaluates (isSingle_invoke _ _) ?_ (.isFinite hfree h)
  cases value <;> simp [Data.isFiniteNumber]

/-- The test for a date. -/
theorem Decides.isDate (hfree : env.lookup? "Date" = none)
    (h : Evaluates world env input (.data value)) :
    Decides world env (.binary .instanceOf input (.identifier "Date"))
      (∃ time, value = .date time) := by
  have hyields : ∀ result, (∀ heap, (isInstance (.data value)
      (.data (.function (.native .date)))).Yields heap result heap) →
      Evaluates world env (.binary .instanceOf input (.identifier "Date"))
        (.data (.boolean result)) := by
    intro result hinstance heap
    refine .step ?_
    simp only [eval]
    refine (h heap).bind ((Evaluates.standard hfree rfl heap).bind ?_)
    exact .of_run ((hinstance heap).bind (.pure _ heap))
  have hsingle : (Expr.binary .instanceOf input (.identifier "Date")).IsSingle := by
    intro op left right heq
    cases heq
    rfl
  cases value with
  | date time => exact .of_evaluates hsingle (by simp) (hyields true fun heap => .pure _ heap)
  | _ => exact .of_evaluates hsingle (by simp) (hyields false fun heap => .pure _ heap)

/-- An object is what has that run-time type and is not null. -/
theorem Data.isObject_iff {value : Data} :
    value.isObject = true ↔ value.typeName = "object" ∧ value ≠ .null := by
  cases value <;> simp [isObject, typeName]

/-- The two conditions on an object, and further ones that are evaluated for objects only. -/
theorem DecidesAll.objectConditions {others : List Expr} {q : Prop}
    (h : Evaluates world env input (.data value))
    (hothers : value.isObject = true → DecidesAll world env others q) :
    DecidesAll world env (Expr.objectConditions input ++ others) (value.isObject = true ∧ q) := by
  have hall : DecidesAll world env (Expr.objectConditions input ++ others) _ :=
    .cons (.isOfType "object" h) fun htype =>
      .cons (.isNotNull h) fun hnull => hothers (Data.isObject_iff.mpr ⟨htype, hnull⟩)
  obtain ⟨result, hresult, hsweeps⟩ := hall
  refine ⟨result, hresult.trans ?_, hsweeps⟩
  rw [Data.isObject_iff, and_assoc]

/-- Both tests for an object. -/
theorem Decides.isObject (h : Evaluates world env input (.data value)) :
    Decides world env (.conjunction (Expr.objectConditions input)) (value.isObject = true) := by
  have hobject := DecidesAll.objectConditions h fun _ => .nil
  rw [List.append_nil] at hobject
  exact hobject.conjunction.congr (iff_of_eq (and_true _))

/-- What a literal decides, holds. -/
theorem Decides.of_true {p : Prop} (h : Decides world env (.boolean true) p) : p := by
  obtain ⟨result, hresult, htests⟩ := h
  exact hresult.mp ((htests []).of_boolean.1)

/-- Tests one after the other, each for one member of a list, decide about all members. -/
theorem DecidesAll.of_forall₂ {α : Type} {p : α → Prop} {exprs : List Expr} {members : List α}
    (h : List.Forall₂ (fun expr member => Decides world env expr (p member)) exprs members) :
    DecidesAll world env exprs (∀ member ∈ members, p member) := by
  induction h with
  | nil => simpa using DecidesAll.nil
  | cons hfirst _ ih => simpa using DecidesAll.cons hfirst fun _ => ih

/-- Tests one after the other, each for one member of a list, decide about any member. -/
theorem DecidesAny.of_forall₂ {α : Type} {p : α → Prop} {exprs : List Expr} {members : List α}
    (h : List.Forall₂ (fun expr member => Decides world env expr (p member)) exprs members) :
    DecidesAny world env exprs (∃ member ∈ members, p member) := by
  induction h with
  | nil => simpa using DecidesAny.nil
  | cons hfirst _ ih => simpa using DecidesAny.cons hfirst fun _ => ih

end TypedRoutes.Runtime
