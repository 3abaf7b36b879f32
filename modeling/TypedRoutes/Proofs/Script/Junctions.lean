import TypedRoutes.Proofs.Runtime.Tests
import TypedRoutes.Proofs.Runtime.Texts

/-!
# Conjunctions and disjunctions as formulas

What the combinations of many conditions mean and which form they have. A combination is true under
the same assignments as its operands together, it is a literal or a chain to the left without
literals and chains inside, and it does not matter how the operands were grouped before.
-/

namespace TypedRoutes.Expr

/-- The truth of an expression as a formula of one operator. Boolean literals have their own, a
chain of the operator has what its operands combine to, and everything else has what it is
assigned. -/
def truth (op : BinaryOp) (combine : Bool → Bool → Bool) (assigned : Expr → Bool) : Expr → Bool
  | .boolean value => value
  | .binary inner left right =>
    if inner = op then combine (left.truth op combine assigned) (right.truth op combine assigned)
    else assigned (.binary inner left right)
  | other => assigned other

/-- Neither a boolean literal nor a chain of the operator. -/
def IsOperand (op : BinaryOp) (expr : Expr) : Prop :=
  (∀ value, expr ≠ .boolean value) ∧ ∀ left right, expr ≠ .binary op left right

/-- A chain of the operator that is associated to the left; a single operand is one too. -/
inductive LeftChain (op : BinaryOp) : Expr → Prop where
  | single {expr : Expr} (operand : IsOperand op expr) : LeftChain op expr
  | longer {left right : Expr} (front : LeftChain op left) (operand : IsOperand op right) :
      LeftChain op (.binary op left right)

/-- A boolean literal, or a chain to the left in which no operand is a literal or a chain. -/
def Folded (op : BinaryOp) (expr : Expr) : Prop :=
  (∃ value, expr = .boolean value) ∨ LeftChain op expr

variable {op : BinaryOp} {stop : Bool} {combine : Bool → Bool → Bool} {assigned : Expr → Bool}
  {expr : Expr} {exprs : List Expr}

/-! ## Truth -/

section Truth

variable (hcombine : ∀ left right, combine left right = stop ↔ left = stop ∨ right = stop)
include hcombine

/-- A formula has the truth that decides exactly when one of its operands has it. -/
theorem truth_eq_stop_iff (expr : Expr) : expr.truth op combine assigned = stop ↔
    ∃ operand ∈ expr.operands op, operand.truth op combine assigned = stop := by
  induction expr using operands.induct op with
  | case1 left right ihl ihr =>
    rw [truth, operands, if_pos rfl, if_pos rfl, hcombine, ihl, ihr]
    simp only [List.mem_append, or_and_right, exists_or]
  | case2 inner left right hne => simp [operands, hne]
  | case3 other hother => simp [operands]

/-- Taking chains apart keeps whether a formula among them decides. -/
theorem truth_flatten_iff (exprs : List Expr) :
    (∃ operand ∈ flatten op exprs, operand.truth op combine assigned = stop) ↔
      ∃ expr ∈ exprs, expr.truth op combine assigned = stop := by
  constructor
  · rintro ⟨operand, hoperand, htruth⟩
    obtain ⟨expr, hexpr, hmem⟩ := List.mem_flatMap.mp hoperand
    exact ⟨expr, hexpr, (truth_eq_stop_iff hcombine expr).mpr ⟨operand, hmem, htruth⟩⟩
  · rintro ⟨expr, hexpr, htruth⟩
    obtain ⟨operand, hmem, htruth⟩ := (truth_eq_stop_iff hcombine expr).mp htruth
    exact ⟨operand, List.mem_flatMap.mpr ⟨expr, hexpr, hmem⟩, htruth⟩

end Truth

/-! ## Operands of a combination -/

theorem operands_of_mem_flatten {operand : Expr} (h : operand ∈ flatten op exprs) :
    operand.operands op = [operand] := by
  obtain ⟨expr, -, hmem⟩ := List.mem_flatMap.mp h
  exact operands_of_mem hmem

/-- The operands that stay: literals that change nothing are dropped. -/
def keptOperands (op : BinaryOp) (stop : Bool) (exprs : List Expr) : List Expr :=
  (flatten op exprs).filter fun operand => !operand.isBoolean !stop

theorem mem_keptOperands {operand : Expr} : operand ∈ keptOperands op stop exprs ↔
    operand ∈ flatten op exprs ∧ operand ≠ .boolean !stop := by
  rw [keptOperands, List.mem_filter, Bool.not_eq_true', ← Bool.not_eq_true, isBoolean_eq]

theorem keptOperands_append (exprs others : List Expr) : keptOperands op stop (exprs ++ others) =
    keptOperands op stop exprs ++ keptOperands op stop others := by
  rw [keptOperands, flatten, List.flatMap_append, List.filter_append]
  rfl

/-- One operand decides. -/
theorem combination_of_mem (h : .boolean stop ∈ flatten op exprs) :
    combination op stop exprs = .boolean stop := by
  rw [combination, if_pos (List.any_eq_true.mpr ⟨_, h, isBoolean_eq.mpr rfl⟩)]

/-- No operand decides, so the operands that stay are combined. -/
theorem combination_of_notMem (h : .boolean stop ∉ flatten op exprs) :
    combination op stop exprs = chain op (.boolean !stop) (keptOperands op stop exprs) := by
  rw [combination, if_neg, keptOperands]
  intro hany
  obtain ⟨operand, hmem, hlit⟩ := List.any_eq_true.mp hany
  exact h (isBoolean_eq.mp hlit ▸ hmem)

theorem operands_chain_kept (exprs : List Expr) :
    (chain op (.boolean !stop) (keptOperands op stop exprs)).operands op =
      if keptOperands op stop exprs = [] then [.boolean !stop] else keptOperands op stop exprs := by
  split
  · rename_i hnone
    rw [hnone]
    simp [chain, operands]
  · rename_i hsome
    exact operands_chain hsome fun operand hmem =>
      operands_of_mem_flatten (mem_keptOperands.mp hmem).1

/-- A combination has the truth that decides exactly when one of its operands has it. -/
theorem truth_combination_iff
    (hcombine : ∀ left right, combine left right = stop ↔ left = stop ∨ right = stop)
    (exprs : List Expr) : (combination op stop exprs).truth op combine assigned = stop ↔
      ∃ expr ∈ exprs, expr.truth op combine assigned = stop := by
  rw [← truth_flatten_iff hcombine]
  by_cases hmem : .boolean stop ∈ flatten op exprs
  · rw [combination_of_mem hmem]
    exact iff_of_true rfl ⟨_, hmem, rfl⟩
  rw [combination_of_notMem hmem, truth_eq_stop_iff hcombine, operands_chain_kept]
  -- a literal that was dropped does not have the truth that decides
  have hkept : (∃ operand ∈ flatten op exprs, operand.truth op combine assigned = stop) ↔
      ∃ operand ∈ keptOperands op stop exprs, operand.truth op combine assigned = stop := by
    refine exists_congr fun operand => ?_
    rw [mem_keptOperands, and_assoc, and_congr_right_iff]
    intro _
    refine ⟨fun htruth => ⟨?_, htruth⟩, And.right⟩
    rintro rfl
    cases stop <;> cases htruth
  rw [hkept]
  split
  · rename_i hnone
    rw [hnone]
    cases stop <;> simp [truth]
  · rfl

theorem LeftChain.foldl {first : Expr} (h : LeftChain op first) {rest : List Expr}
    (hrest : ∀ operand ∈ rest, IsOperand op operand) :
    LeftChain op (rest.foldl (.binary op) first) := by
  induction rest generalizing first with
  | nil => exact h
  | cons operand rest ih =>
    obtain ⟨hoperand, htail⟩ := List.forall_mem_cons.mp hrest
    exact ih (.longer h hoperand) htail

/-- A combination is a literal or a chain to the left without literals and chains inside. -/
theorem folded_combination (op : BinaryOp) (stop : Bool) (exprs : List Expr) :
    Folded op (combination op stop exprs) := by
  by_cases hmem : .boolean stop ∈ flatten op exprs
  · exact .inl ⟨stop, combination_of_mem hmem⟩
  rw [combination_of_notMem hmem]
  have hkept (operand : Expr) (hoperand : operand ∈ keptOperands op stop exprs) :
      IsOperand op operand := by
    obtain ⟨hflat, hne⟩ := mem_keptOperands.mp hoperand
    constructor
    · rintro value rfl
      have hvalue : value ≠ !stop := fun h => hne (h ▸ rfl)
      have hstop : value = stop := by simpa using hvalue
      exact hmem (hstop ▸ hflat)
    · rintro left right rfl
      have hsingle := operands_of_mem_flatten hflat
      rw [operands, if_pos rfl] at hsingle
      have hlength := congrArg List.length hsingle
      have hleft := List.length_pos_of_ne_nil (operands_ne_nil op left)
      have hright := List.length_pos_of_ne_nil (operands_ne_nil op right)
      simp only [List.length_append, List.length_singleton] at hlength
      omega
  cases hlist : keptOperands op stop exprs with
  | nil => exact .inl ⟨!stop, rfl⟩
  | cons first rest =>
    rw [hlist, List.forall_mem_cons] at hkept
    exact .inr ((LeftChain.single hkept.1).foldl hkept.2)

/-! ## Regrouping -/

theorem mem_operands_combination :
    .boolean stop ∈ (combination op stop exprs).operands op ↔ .boolean stop ∈ flatten op exprs := by
  by_cases hmem : .boolean stop ∈ flatten op exprs
  · rw [combination_of_mem hmem]
    simp [operands, hmem]
  · rw [combination_of_notMem hmem, operands_chain_kept]
    refine iff_of_false ?_ hmem
    split
    · cases stop <;> simp
    · exact fun h => hmem (mem_keptOperands.mp h).1

theorem keptOperands_singleton (h : .boolean stop ∉ flatten op exprs) :
    keptOperands op stop [combination op stop exprs] = keptOperands op stop exprs := by
  rw [keptOperands, flatten, List.flatMap_singleton, combination_of_notMem h, operands_chain_kept]
  split
  · rename_i hnone
    rw [hnone]
    simp [isBoolean]
  · rw [keptOperands, List.filter_filter]
    simp

/-- Combining two groups first and then their combinations is combining all. -/
theorem combination_append (op : BinaryOp) (stop : Bool) (exprs others : List Expr) :
    combination op stop (exprs ++ others) =
      combination op stop [combination op stop exprs, combination op stop others] := by
  have hflat : .boolean stop ∈
        flatten op [combination op stop exprs, combination op stop others] ↔
      .boolean stop ∈ flatten op (exprs ++ others) := by
    simp [flatten, List.flatMap_append, mem_operands_combination]
  by_cases hmem : .boolean stop ∈ flatten op (exprs ++ others)
  · rw [combination_of_mem hmem, combination_of_mem (hflat.mpr hmem)]
  · rw [combination_of_notMem hmem, combination_of_notMem (mt hflat.mp hmem)]
    rw [flatten, List.flatMap_append, List.mem_append, not_or] at hmem
    have hpair : [combination op stop exprs, combination op stop others] =
        [combination op stop exprs] ++ [combination op stop others] := rfl
    rw [hpair, keptOperands_append, keptOperands_append, keptOperands_singleton hmem.1,
      keptOperands_singleton hmem.2]

/-- Conjunctions and disjunctions have the meaning of their operands together under every
assignment, are in folded form, and do not depend on how the operands were grouped. -/
theorem junctions_sound_and_canonical (assigned : Expr → Bool) (exprs others : List Expr) :
    (conjunction exprs).truth .and and assigned = exprs.all (truth .and and assigned) ∧
    (disjunction exprs).truth .or or assigned = exprs.any (truth .or or assigned) ∧
    Folded .and (conjunction exprs) ∧ Folded .or (disjunction exprs) ∧
    conjunction (exprs ++ others) = conjunction [conjunction exprs, conjunction others] ∧
    disjunction (exprs ++ others) = disjunction [disjunction exprs, disjunction others] := by
  have hand : ∀ left right, and left right = false ↔ left = false ∨ right = false := by decide
  have hor : ∀ left right, or left right = true ↔ left = true ∨ right = true := by decide
  simp only [conjunction_eq, disjunction_eq]
  refine ⟨?_, ?_, folded_combination _ _ _, folded_combination _ _ _, combination_append _ _ _ _,
    combination_append _ _ _ _⟩
  · rw [Bool.eq_iff_iff, ← not_iff_not, Bool.not_eq_true, Bool.not_eq_true,
      truth_combination_iff hand, List.all_eq_false]
    simp only [Bool.not_eq_true]
  · rw [Bool.eq_iff_iff, truth_combination_iff hor, List.any_eq_true]

example : conjunction [.identifier "a", .binary .and (.boolean true)
    (.binary .and (.identifier "b") (.identifier "c"))] =
      .binary .and (.binary .and (.identifier "a") (.identifier "b")) (.identifier "c") := rfl

end TypedRoutes.Expr
