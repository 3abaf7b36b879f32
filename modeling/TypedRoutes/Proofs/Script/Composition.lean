import TypedRoutes.Proofs.Runtime.Tests

/-!
# Properties of combinations

A property that a binary expression has exactly when both of its operands do can be read off the
operands of a chain, whatever is flattened, dropped or joined when the chain is built. So it holds
of a conjunction, a disjunction and a concatenation if it holds of what these are built from.
-/

namespace TypedRoutes.Expr

/-- A property of texts and truth values, and of binary expressions exactly if both operands have
it. -/
structure Composes (holds : Expr → Prop) : Prop where
  string : ∀ text, holds (.string text)
  boolean : ∀ value, holds (.boolean value)
  binary : ∀ {op left right}, holds (.binary op left right) ↔ holds left ∧ holds right

namespace Composes

variable {holds : Expr → Prop} (hc : Composes holds) {expr : Expr} {exprs : List Expr}

include hc

/-- The operands of an expression with the property have it. -/
theorem operands (h : holds expr) (op : BinaryOp) :
    ∀ operand ∈ expr.operands op, holds operand := by
  induction expr using Expr.operands.induct op with
  | case1 left right ihl ihr =>
    obtain ⟨hl, hr⟩ := hc.binary.mp h
    rw [Expr.operands, if_pos rfl]
    exact List.forall_mem_append.mpr ⟨ihl hl, ihr hr⟩
  | case2 inner left right hne =>
    rw [Expr.operands, if_neg hne]
    exact List.forall_mem_singleton.mpr h
  | case3 other hother =>
    rw [Expr.operands]
    · exact List.forall_mem_singleton.mpr h
    · exact hother

/-- So have the operands of several expressions. -/
theorem flatten (h : ∀ expr ∈ exprs, holds expr) (op : BinaryOp) :
    ∀ operand ∈ Expr.flatten op exprs, holds operand := by
  intro operand hoperand
  obtain ⟨expr, hexpr, hmem⟩ := List.mem_flatMap.mp hoperand
  exact hc.operands (h expr hexpr) op operand hmem

/-- A chain of expressions with the property has it. -/
theorem chain {op : BinaryOp} {unit : Expr} (hunit : holds unit) (h : ∀ expr ∈ exprs, holds expr) :
    holds (Expr.chain op unit exprs) := by
  cases exprs with
  | nil => exact hunit
  | cons first rest =>
    rw [Expr.chain]
    obtain ⟨hfirst, hrest⟩ := List.forall_mem_cons.mp h
    clear h
    induction rest generalizing first with
    | nil => exact hfirst
    | cons second rest ih =>
      obtain ⟨hsecond, hrest⟩ := List.forall_mem_cons.mp hrest
      exact ih _ (hc.binary.mpr ⟨hfirst, hsecond⟩) hrest

/-- A combination of expressions with the property has it, whichever value decides it. -/
theorem combination {op : BinaryOp} {stop : Bool} (h : ∀ expr ∈ exprs, holds expr) :
    holds (Expr.combination op stop exprs) := by
  rw [Expr.combination]
  split
  · exact hc.boolean stop
  · exact hc.chain (hc.boolean _) fun operand hoperand =>
      hc.flatten h op operand (List.mem_filter.mp hoperand).1

/-- The conjunction of conditions with the property has it. -/
theorem conjunction (h : ∀ expr ∈ exprs, holds expr) : holds (Expr.conjunction exprs) := by
  rw [Expr.conjunction_eq]
  exact hc.combination h

/-- The disjunction of conditions with the property has it. -/
theorem disjunction (h : ∀ expr ∈ exprs, holds expr) : holds (Expr.disjunction exprs) := by
  rw [Expr.disjunction_eq]
  exact hc.combination h

/-- Merging the literals that stand side by side keeps the property. -/
theorem mergeLiterals (h : ∀ expr ∈ exprs, holds expr) :
    ∀ operand ∈ Expr.mergeLiterals exprs, holds operand := by
  induction exprs with
  | nil => exact h
  | cons expr rest ih =>
    obtain ⟨hfirst, hrest⟩ := List.forall_mem_cons.mp h
    have hmerged := ih hrest
    have hcons := List.forall_mem_cons.mpr ⟨hfirst, hmerged⟩
    cases expr with
    | string text =>
      simp only [Expr.mergeLiterals]
      generalize Expr.mergeLiterals rest = merged at hmerged hcons ⊢
      cases merged with
      | nil => exact hcons
      | cons next tail =>
        obtain ⟨-, htail⟩ := List.forall_mem_cons.mp hmerged
        cases next with
        | string more => exact List.forall_mem_cons.mpr ⟨hc.string _, htail⟩
        | _ => exact hcons
    | _ => exact hcons

/-- The concatenation of expressions with the property has it. -/
theorem concatenation (h : ∀ expr ∈ exprs, holds expr) : holds (Expr.concatenation exprs) :=
  hc.chain (hc.string "") (hc.mergeLiterals (hc.flatten h .plus))

end Composes

end TypedRoutes.Expr
