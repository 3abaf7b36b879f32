import TypedRoutes.Proofs.Runtime.Parts
import TypedRoutes.Proofs.Serializers.Sparing

/-!
# Inputs of serializers

What the code that serializes a value relies on where it stands. The code for a part of the value
relies on the same, be it under the binder of a closure.
-/

namespace TypedRoutes.Scope

open TypedRoutes.Runtime

/-- The input evaluates to a well-formed value here and under further binders, the helpers can be
called, and the code is told apart from the factory. -/
structure Stands (world : World) (scope : Scope) (base env : Env) (depth : Nat) (input : Expr)
    (value : Data) : Prop where
  stable : Stable world env depth input value
  helpers : base.Extends env
  sees : scope.Sees env input
  wellFormed : value.WellFormed

namespace Stands

variable {world : World} {scope : Scope} {base env : Env} {depth : Nat} {input body : Expr}
  {value : Data}

theorem evaluates (h : scope.Stands world base env depth input value) :
    Evaluates world env input (.data value) :=
  h.stable.evaluates

/-- A property of an object. -/
theorem member (h : scope.Stands world base env depth input value) (hobject : value.isObject = true)
    (name : String) :
    scope.Stands world base env depth (.member input name) (world.get value name) where
  stable := h.stable.member (Data.isPresent_of_isObject hobject) name
  helpers := h.helpers
  sees := h.sees.member name
  wellFormed := World.get_wellFormed h.wellFormed name

/-- An item of an array at a fixed position. -/
theorem position {items : List Data} (h : scope.Stands world base env depth input (.array items))
    {n : Nat} (hn : n < items.length) :
    scope.Stands world base env depth (.element input (.natural n)) items[n] where
  stable := by
    rw [← World.item_ofNat h.wellFormed.length_lt hn world]
    exact h.stable.position n
  helpers := h.helpers
  sees := h.sees.element _
  wellFormed := h.wellFormed.values (List.getElem_mem hn)

/-- The parameter of a closure that the factory does not mention. -/
theorem parameter {letters : String} (hletters : letters ∈ binders)
    (h : scope.Stands world base env depth input value)
    (hclosure : Spares scope.factory (.lambda [bindingName depth letters] body)) {item : Data}
    (hitem : item.WellFormed) :
    scope.Stands world base (.bind (bindingName depth letters) (.data item) env) (depth + 1)
      (.identifier (bindingName depth letters)) item where
  stable := .parameter hletters depth item env
  helpers := h.helpers.bind (.inr ⟨depth, letters, Nat.zero_le _, hletters, rfl⟩) (.data item)
  sees := .bind h.sees.free (hclosure.lambda_params List.mem_cons_self) _
  wellFormed := hitem

/-- What stands behind a key of an object, under the binder of the key. -/
theorem key {letters : String} (hletters : letters ∈ binders)
    (h : scope.Stands world base env depth input value) (hobject : value.isObject = true)
    (hclosure : Spares scope.factory (.lambda [bindingName depth letters] body)) (key : String) :
    scope.Stands world base (.bind (bindingName depth letters) (.data (.string key)) env)
      (depth + 1)
      (.element input (.identifier (bindingName depth letters))) (world.get value key) where
  stable := (h.stable.inside (.bind hletters depth _ env) (Nat.le_succ depth)).key
    (.parameter hletters depth _ env) (Data.isPresent_of_isObject hobject)
  helpers := h.helpers.bind (.inr ⟨depth, letters, Nat.zero_le _, hletters, rfl⟩) _
  sees := (Sees.bind h.sees.free (hclosure.lambda_params List.mem_cons_self) _).inside
    (by simp [Expr.identifiers])
  wellFormed := World.get_wellFormed h.wellFormed key

/-- The closure of a list that is made from the input item by item. -/
theorem closure {items closure : Expr} {opening closing : String}
    (h : scope.Stands world base env depth input value)
    (hspares : Spares scope.factory
      (bracketed opening (.invoke (.property items "map") [closure]) closing))
    (hitems : input.identifiers ⊆ items.identifiers) : Spares scope.factory closure := by
  refine (hspares.bracketed (h.sees.ne_factory ?_)).call_argument List.mem_cons_self
  simpa [Expr.invoke, Expr.identifiers] using List.subset_append_of_subset_left _ hitems

/-- The entries of a list that is not the factory, one of which mentions the input. -/
theorem entries {entries : List Expr} {opening closing : String}
    (h : scope.Stands world base env depth input value)
    (hspares : Spares scope.factory (bracketed opening (present entries) closing))
    (hmentions : input.identifiers ⊆ Expr.identifiersOf entries) :
    ∀ entry ∈ entries, Spares scope.factory entry := by
  have hlist : Spares scope.factory (.array entries) :=
    (hspares.bracketed (h.sees.ne_factory (by
      simpa [present, Expr.invoke, Expr.identifiers] using
        List.subset_append_of_subset_left _ hmentions))).call_callee.property_target
          (h.sees.ne_factory (by simpa [Expr.identifiers] using hmentions))
  exact fun entry hmem => hlist.array_element hmem

end Stands

end TypedRoutes.Scope
