import TypedRoutes.Artifact.Scope
import TypedRoutes.Proofs.Runtime.Tests

/-!
# Calls of functions that are always there

What the calls in generated code yield: the tests for arrays and finite numbers, the keys and values
of an object, and the loops over an array.
-/

namespace TypedRoutes.Runtime

variable {world : World} {env : Env} {heap middle after : Heap}

/-! ## What arrays have -/

/-- A key that starts with no digit names no item. -/
theorem itemNamed?_eq_none {key : String}
    (h : ∀ letter, key.toList.head? = some letter → letter.isDigit = false) (items : List Data) :
    itemNamed? items key = none := by
  rw [itemNamed?, Option.map_eq_none_iff, List.find?_eq_none]
  rintro ⟨item, position⟩ - hkey
  obtain rfl := beq_iff_eq.mp hkey
  rw [Decimal.naturalText, String.toList_ofList] at h
  cases hdigits : Nat.toDigits 10 position with
  | nil => exact Nat.toDigits_ne_nil hdigits
  | cons digit rest =>
    have hdigit := Nat.isDigit_of_mem_toDigits (b := 10) (n := position) (c := digit) (by decide)
      (by decide) (by simp [hdigits])
    rw [hdigits] at h
    rw [h digit rfl] at hdigit
    cases hdigit

/-- A method of arrays is not hidden by an item. -/
theorem World.get_method {name : String} {method : Native} (hname : name ≠ "length")
    (hmethod : Native.ofArray? name = some method)
    (hletter : ∀ letter, name.toList.head? = some letter → letter.isDigit = false)
    (world : World) (items : List Data) :
    world.get (.array items) name = .function (.native method) := by
  simp [World.get, Data.own?, hname, itemNamed?_eq_none hletter, hmethod]

/-- Arrays have the standard functions under their names. -/
theorem World.get_every (world : World) (items : List Data) :
    world.get (.array items) "every" = .function (.native .every) :=
  World.get_method (by decide) rfl (by simp) world items

theorem World.get_map (world : World) (items : List Data) :
    world.get (.array items) "map" = .function (.native .map) :=
  World.get_method (by decide) rfl (by simp) world items

theorem World.get_filter (world : World) (items : List Data) :
    world.get (.array items) "filter" = .function (.native .filter) :=
  World.get_method (by decide) rfl (by simp) world items

theorem World.get_join (world : World) (items : List Data) :
    world.get (.array items) "join" = .function (.native .join) :=
  World.get_method (by decide) rfl (by simp) world items

/-! ## Functions of one argument -/

/-- A call of a function that belongs to another one. -/
theorem Evaluates.callPart {owner name : String} {holder part : Native} {input : Expr}
    {value result : Data} (hfree : env.lookup? owner = none)
    (howner : standard? owner = some (.function (.native holder)))
    (hpart : holder.part? name = some part) (hinput : Evaluates world env input (.data value))
    (hcall : ∀ heap, (apply world (.data (.function (.native part)))
      (.data (.function (.native holder))) [.data value]).Yields heap (.data result) heap) :
    Evaluates world env (.invoke (.property (.identifier owner) name) [input]) (.data result) := by
  intro heap
  have hget : world.get (.function (.native holder)) name = .function (.native part) := by
    simp [World.get, Data.own?, hpart]
  have howner : Evaluates world env (.identifier owner) _ := .standard hfree howner
  have hcallee := evalCallee_property (howner heap) rfl name
  rw [hget] at hcallee
  exact yields_invoke hcallee (evalAll_cons (hinput heap) evalAll_nil) (hcall heap)

/-- Whether a value is an array. -/
def Data.isArray : Data → Bool
  | .array _ => true
  | _ => false

/-- The standard test for an array tells what is one. -/
theorem Evaluates.isArray {input : Expr} {value : Data} (hfree : env.lookup? "Array" = none)
    (hinput : Evaluates world env input (.data value)) :
    Evaluates world env (.isArray input) (.data (.boolean value.isArray)) := by
  refine .callPart hfree rfl rfl hinput fun heap => ?_
  refine .step ?_
  simp only [apply]
  cases value <;> exact .pure _ heap

/-- Whether a value is a finite number. -/
def Data.isFiniteNumber : Data → Bool
  | .number value => value.isFinite
  | _ => false

/-- The standard test for a finite number tells what is one. -/
theorem Evaluates.isFinite {input : Expr} {value : Data} (hfree : env.lookup? "Number" = none)
    (hinput : Evaluates world env input (.data value)) :
    Evaluates world env (.invoke (.property (.identifier "Number") "isFinite") [input])
      (.data (.boolean value.isFiniteNumber)) := by
  refine .callPart hfree rfl rfl hinput fun heap => ?_
  refine .step ?_
  simp only [apply]
  cases value <;> exact .pure _ heap

/-- The values of an object in their order. -/
theorem Evaluates.values {input : Expr} {value : Data} (hfree : env.lookup? "Object" = none)
    (hinput : Evaluates world env input (.data value)) (hobject : value.isObject = true) :
    Evaluates world env (.invoke (.property (.identifier "Object") "values") [input])
      (.data (.array value.values)) := by
  refine .callPart hfree rfl rfl hinput fun heap => ?_
  refine .step ?_
  simp only [apply, callNative, hobject, ite_true]
  exact .pure _ heap

/-- The keys of an object in their order. -/
theorem Evaluates.keys {input : Expr} {value : Data} (hfree : env.lookup? "Object" = none)
    (hinput : Evaluates world env input (.data value)) (hobject : value.isObject = true) :
    Evaluates world env (.invoke (.property (.identifier "Object") "keys") [input])
      (.data (.array (value.keys.map .string))) := by
  refine .callPart hfree rfl rfl hinput fun heap => ?_
  refine .step ?_
  simp only [apply, callNative, hobject, ite_true]
  exact .pure _ heap

/-! ## Loops over an array -/

/-- A call of a method on an array. -/
theorem yields_method {name : String} {method : Native} {target argument : Expr}
    {items : List Data} {value result : Value} {called : Heap}
    (ht : (eval world env target).Yields heap (.data (.array items)) middle)
    (hmethod : world.get (.array items) name = .function (.native method))
    (ha : (eval world env argument).Yields middle value called)
    (h : (apply world (.data (.function (.native method))) (.data (.array items)) [value]).Yields
      called result after) :
    (eval world env (.invoke (.property target name) [argument])).Yields heap result after := by
  have hcallee := evalCallee_property ht rfl name
  rw [hmethod] at hcallee
  exact yields_invoke hcallee (evalAll_cons ha evalAll_nil) h

/-- The names that the body of a closure with one parameter sees when it is called on an item. -/
theorem bindAll_item (name : String) (item : Data) (position : Nat) (items : List Data)
    (env : Env) :
    Env.bindAll [name] [.data item, .data (.number (Float.ofNat position)), .data (.array items)]
      env = .bind name (.data item) env := rfl

/-- The names that the body of a closure with two parameters sees when it is called on an item. -/
theorem bindAll_itemAt (name index : String) (item : Data) (position : Nat) (items : List Data)
    (env : Env) :
    Env.bindAll [name, index] [.data item, .data (.number (Float.ofNat position)),
      .data (.array items)] env =
        .bind index (.data (.number (Float.ofNat position))) (.bind name (.data item) env) := rfl

/-- Nothing fails a test that nobody takes. -/
theorem every_nil (test : Value) (items : List Data) (position : Nat) :
    (every world test items [] position).Yields heap true heap := by
  refine .step ?_
  simp only [every]
  exact .pure true heap

/-- The test ends at an item that fails. -/
theorem every_stop {test result : Value} {items rest : List Data} {item : Data} {position : Nat}
    (h : (apply world test (.data .undefined) [.data item, .data (.number (Float.ofNat position)),
      .data (.array items)]).Yields heap result after) (hresult : result.truthy = false) :
    (every world test items (item :: rest) position).Yields heap false after := by
  refine .step ?_
  simp only [every]
  refine h.bind ?_
  simp only [hresult, Bool.false_eq_true, ite_false]
  exact .pure false after

/-- The test goes on behind an item that passes. -/
theorem every_next {test result : Value} {items rest : List Data} {item : Data} {position : Nat}
    {all : Bool}
    (h : (apply world test (.data .undefined) [.data item, .data (.number (Float.ofNat position)),
      .data (.array items)]).Yields heap result middle) (hresult : result.truthy = true)
    (hr : (every world test items rest (position + 1)).Yields middle all after) :
    (every world test items (item :: rest) position).Yields heap all after := by
  refine .step ?_
  simp only [every]
  refine h.bind ?_
  simpa only [hresult, ite_true] using hr

/-- A test of every item tells whether all of them pass. -/
theorem every_decides {name : String} {test : Expr} {items : List Data} {p : Data → Prop}
    (rest : List Data) (position : Nat)
    (h : ∀ item ∈ rest, Decides world (.bind name (.data item) env) test (p item)) :
    ∃ all : Bool, (all = true ↔ ∀ item ∈ rest, p item) ∧ ∀ heap,
      (every world (.closure [name] (.concise test) env) items rest position).Yields heap all
        heap := by
  induction rest generalizing position with
  | nil => exact ⟨true, by simp, fun heap => every_nil _ _ _⟩
  | cons item rest ih =>
    obtain ⟨result, hresult, htests⟩ := h item List.mem_cons_self
    obtain ⟨others, hothers, hrest⟩ :=
      ih (position + 1) fun other hother => h other (List.mem_cons_of_mem _ hother)
    have hcall : ∀ heap, (apply world (.closure [name] (.concise test) env) (.data .undefined)
        [.data item, .data (.number (Float.ofNat position)), .data (.array items)]).Yields heap
          (.data (.boolean result)) heap := by
      intro heap
      refine apply_closure ?_
      rw [bindAll_item]
      exact (htests heap).yields
    cases result with
    | false =>
      have hnot : ¬ p item := fun hp => Bool.false_ne_true (hresult.mpr hp)
      exact ⟨false, by simp [hnot], fun heap => every_stop (hcall heap) rfl⟩
    | true =>
      have hp : p item := hresult.mp rfl
      exact ⟨others, by simp [hp, hothers], fun heap => every_next (hcall heap) rfl (hrest heap)⟩

/-- A call is one condition. -/
theorem isSingle_invoke (callee : Expr) (arguments : List Expr) :
    (Expr.invoke callee arguments).IsSingle := by
  intro op left right h
  cases h

/-- The test of all items of an array. -/
theorem Decides.every {name : String} {target test : Expr} {items : List Data} {p : Data → Prop}
    (ht : Evaluates world env target (.data (.array items)))
    (h : ∀ item ∈ items, Decides world (.bind name (.data item) env) test (p item)) :
    Decides world env (.invoke (.property target "every") [.lambda [name] test])
      (∀ item ∈ items, p item) := by
  obtain ⟨all, hall, hevery⟩ := every_decides items 0 h
  refine .of_evaluates (isSingle_invoke _ _) hall fun heap => ?_
  refine yields_method (ht heap) (world.get_every items) (Evaluates.closure _ _ heap) ?_
  refine .step ?_
  simp only [apply]
  exact (hevery heap).bind (.pure _ heap)

end TypedRoutes.Runtime
