import TypedRoutes.Proofs.Runtime.Calculus

/-!
# Tests

Expressions whose value is a boolean, and how the combinations of many of them are evaluated. A
conjunction and a disjunction differ only in the result that ends them, so there is one account of
both: operands are evaluated from left to right until one has that result.
-/

namespace TypedRoutes

/-- The result of the left operand with which the right one is not evaluated any more. -/
def BinaryOp.stop? : BinaryOp → Option Bool
  | .and => some false
  | .or => some true
  | _ => none

namespace Expr

/-- The combination of many operands by one operator that stops early: a literal that stops decides,
a literal that goes on is dropped. -/
def combination (op : BinaryOp) (stop : Bool) (exprs : List Expr) : Expr :=
  if (flatten op exprs).any (isBoolean stop) then .boolean stop
  else chain op (.boolean !stop)
    ((flatten op exprs).filter fun operand => !operand.isBoolean !stop)

/-- A flag is the literal of that flag. -/
theorem isBoolean_eq {expr : Expr} {value : Bool} :
    expr.isBoolean value = true ↔ expr = .boolean value := by
  cases expr <;> simp [isBoolean]

/-- A conjunction is a combination that stops at false. -/
theorem conjunction_eq (exprs : List Expr) : conjunction exprs = combination .and false exprs := by
  have hany : ((flatten .and exprs).filter fun operand => !operand.isBoolean true).any
      (isBoolean false) = (flatten .and exprs).any (isBoolean false) := by
    rw [List.any_filter]
    congr 1
    funext operand
    cases hfalse : operand.isBoolean false with
    | false => simp
    | true => simp [isBoolean_eq.mp hfalse, isBoolean]
  simp only [conjunction, combination, hany, Bool.not_false]

/-- A disjunction is a combination that stops at true. -/
theorem disjunction_eq (exprs : List Expr) : disjunction exprs = combination .or true exprs := rfl

/-- An expression that is no chain of the two operators that stop early. -/
def IsSingle (expr : Expr) : Prop :=
  ∀ op left right, expr = .binary op left right → op.stop? = none

/-- A condition that is no operation is its own only operand. -/
theorem IsSingle.operands_eq {expr : Expr} (h : expr.IsSingle) {op : BinaryOp} {stop : Bool}
    (hop : op.stop? = some stop) : expr.operands op = [expr] := by
  cases expr with
  | binary inner left right =>
    have hinner := h inner left right rfl
    have hne : inner ≠ op := by
      rintro rfl
      rw [hinner] at hop
      cases hop
    rw [operands, if_neg hne]
  | _ => rfl

theorem isSingle_boolean (value : Bool) : IsSingle (.boolean value) := by
  intro op left right h
  cases h

end Expr

namespace Runtime

variable {world : World} {env : Env} {heap middle after : Heap}

/-- The expression evaluates to a boolean, and so do all operands of its chains that are
evaluated. -/
inductive Tests (world : World) (env : Env) : Heap → Expr → Bool → Heap → Prop where
  | single {heap after : Heap} {expr : Expr} {result : Bool} (shape : expr.IsSingle)
      (yields : (eval world env expr).Yields heap (.data (.boolean result)) after) :
      Tests world env heap expr result after
  | stop {heap after : Heap} {op : BinaryOp} {stop : Bool} {left right : Expr}
      (stops : op.stop? = some stop) (first : Tests world env heap left stop after) :
      Tests world env heap (.binary op left right) stop after
  | next {heap middle after : Heap} {op : BinaryOp} {stop result : Bool} {left right : Expr}
      (stops : op.stop? = some stop) (first : Tests world env heap left (!stop) middle)
      (second : Tests world env middle right result after) :
      Tests world env heap (.binary op left right) result after

/-- A test evaluates to its result. -/
theorem Tests.yields {expr : Expr} {result : Bool} (h : Tests world env heap expr result after) :
    (eval world env expr).Yields heap (.data (.boolean result)) after := by
  induction h with
  | single _ yields => exact yields
  | @stop _ _ op _ _ _ stops _ ih =>
    cases op <;> cases stops
    · exact yields_and_stop ih rfl
    · exact yields_or_stop ih rfl
  | @next _ _ _ op _ _ _ _ stops _ _ ihl ihr =>
    cases op <;> cases stops
    · exact yields_and_next ihl rfl ihr
    · exact yields_or_next ihl rfl ihr

theorem Tests.boolean (value : Bool) (heap : Heap) :
    Tests world env heap (.boolean value) value heap :=
  .single (Expr.isSingle_boolean value) (Evaluates.boolean value heap)

/-- A literal has its own value and no effect. -/
theorem Tests.of_boolean {value result : Bool}
    (h : Tests world env heap (.boolean value) result after) : result = value ∧ after = heap := by
  obtain ⟨hvalue, hheap⟩ := h.yields.unique (Evaluates.boolean value heap)
  simp only [Value.data.injEq, Data.boolean.injEq] at hvalue
  exact ⟨hvalue, hheap⟩

/-- Nothing that follows an operand that stops is evaluated. -/
theorem Tests.foldl_of_stop {op : BinaryOp} {stop : Bool} (hop : op.stop? = some stop)
    (rest : List Expr) {first : Expr} (h : Tests world env heap first stop after) :
    Tests world env heap (rest.foldl (.binary op) first) stop after := by
  induction rest generalizing first with
  | nil => exact h
  | cons other rest ih => exact ih (.stop hop h)

/-- Operands that are evaluated from left to right until one has the result that stops. -/
inductive Sweeps (world : World) (env : Env) (stop : Bool) :
    Heap → List Expr → Bool → Heap → Prop where
  | done (heap : Heap) : Sweeps world env stop heap [] (!stop) heap
  | stop {heap after : Heap} {expr : Expr} {rest : List Expr}
      (first : Tests world env heap expr stop after) :
      Sweeps world env stop heap (expr :: rest) stop after
  | next {heap middle after : Heap} {expr : Expr} {rest : List Expr} {result : Bool}
      (first : Tests world env heap expr (!stop) middle)
      (others : Sweeps world env stop middle rest result after) :
      Sweeps world env stop heap (expr :: rest) result after

namespace Sweeps

variable {stop result : Bool} {exprs others : List Expr}

/-- What stands behind operands that stopped is not evaluated. -/
theorem append_stop (h : Sweeps world env stop heap exprs result after) (hstop : result = stop)
    (others : List Expr) : Sweeps world env stop heap (exprs ++ others) result after := by
  induction h with
  | done heap => cases stop <;> cases hstop
  | stop first => exact .stop first
  | next first _ ih => exact .next first (ih hstop)

/-- What stands behind operands that did not stop is evaluated after them. -/
theorem append_next {goes : Bool} (h : Sweeps world env stop heap exprs goes middle)
    (hgoes : goes = !stop) (ho : Sweeps world env stop middle others result after) :
    Sweeps world env stop heap (exprs ++ others) result after := by
  induction h with
  | done heap => exact ho
  | stop first => cases stop <;> cases hgoes
  | next first _ ih => exact .next first (ih hgoes ho)

theorem singleton {expr : Expr} (h : Tests world env heap expr result after) :
    Sweeps world env stop heap [expr] result after := by
  by_cases hstop : result = stop
  · subst hstop
    exact .stop h
  · have hgoes : result = !stop := Bool.eq_not.mpr hstop
    subst hgoes
    exact .next h (.done after)

/-- Replacing every operand by operands that together have its result. -/
theorem flatMap {f : Expr → List Expr} (h : Sweeps world env stop heap exprs result after)
    (hf : ∀ expr ∈ exprs, ∀ before result after, Tests world env before expr result after →
      Sweeps world env stop before (f expr) result after) :
    Sweeps world env stop heap (exprs.flatMap f) result after := by
  induction h with
  | done heap => exact .done heap
  | @stop heap after expr rest first =>
    rw [List.flatMap_cons]
    exact (hf expr List.mem_cons_self _ _ _ first).append_stop rfl _
  | @next heap middle after expr rest result first _ ih =>
    rw [List.flatMap_cons]
    exact (hf expr List.mem_cons_self _ _ _ first).append_next rfl
      (ih fun other hother => hf other (List.mem_cons_of_mem _ hother))

/-- Dropping literals that do not stop. -/
theorem filter (h : Sweeps world env stop heap exprs result after) :
    Sweeps world env stop heap (exprs.filter fun operand => !operand.isBoolean !stop) result
      after := by
  induction h with
  | done heap => exact .done heap
  | @stop heap after expr rest first =>
    cases hlit : expr.isBoolean !stop with
    | false =>
      rw [List.filter_cons_of_pos (by simp [hlit])]
      exact .stop first
    | true =>
      rw [Expr.isBoolean_eq.mp hlit] at first
      cases stop <;> cases first.of_boolean.1
  | @next heap middle after expr rest result first _ ih =>
    cases hlit : expr.isBoolean !stop with
    | false =>
      rw [List.filter_cons_of_pos (by simp [hlit])]
      exact .next first ih
    | true =>
      rw [List.filter_cons_of_neg (by simp [hlit])]
      rw [Expr.isBoolean_eq.mp hlit] at first
      rw [first.of_boolean.2] at ih
      exact ih

/-- A literal that stops is the result. -/
theorem result_of_mem (h : Sweeps world env stop heap exprs result after)
    (hmem : Expr.boolean stop ∈ exprs) : result = stop := by
  induction h with
  | done heap => cases hmem
  | stop first => rfl
  | @next heap middle after expr rest result first _ ih =>
    rcases List.mem_cons.mp hmem with rfl | hrest
    · cases stop <;> cases first.of_boolean.1
    · exact ih hrest

/-- The chain of the operands, behind an expression that did not stop, has their result. -/
theorem foldl {op : BinaryOp} (hop : op.stop? = some stop)
    (h : Sweeps world env stop middle exprs result after) :
    ∀ first, Tests world env heap first (!stop) middle →
      Tests world env heap (exprs.foldl (.binary op) first) result after := by
  induction h with
  | done heap => exact fun first hfirst => hfirst
  | @stop _ _ expr rest htest =>
    intro first hfirst
    have hnext := Tests.next hop hfirst htest
    exact Tests.foldl_of_stop hop rest hnext
  | next htest _ ih =>
    intro first hfirst
    exact ih _ (.next hop hfirst htest)

end Sweeps

/-- The operands of a chain have its result. -/
theorem Tests.operands {op : BinaryOp} {stop result : Bool} (hop : op.stop? = some stop)
    {expr : Expr} (h : Tests world env heap expr result after) :
    Sweeps world env stop heap (expr.operands op) result after := by
  induction h with
  | single shape yields =>
    rw [shape.operands_eq hop]
    exact .singleton (.single shape yields)
  | @stop heap after inner ends left right stops first ih =>
    by_cases hinner : inner = op
    · subst hinner
      cases hop.symm.trans stops
      rw [Expr.operands, if_pos rfl]
      exact ih.append_stop rfl _
    · rw [Expr.operands, if_neg hinner]
      exact .singleton (.stop stops first)
  | @next heap middle after inner ends result left right stops first second ihl ihr =>
    by_cases hinner : inner = op
    · subst hinner
      cases hop.symm.trans stops
      rw [Expr.operands, if_pos rfl]
      exact ihl.append_next rfl ihr
    · rw [Expr.operands, if_neg hinner]
      exact .singleton (.next stops first second)

/-- The chain of operands has their result. -/
theorem Sweeps.chain {op : BinaryOp} {stop result : Bool} (hop : op.stop? = some stop)
    {exprs : List Expr} (h : Sweeps world env stop heap exprs result after) :
    Tests world env heap (Expr.chain op (.boolean !stop) exprs) result after := by
  cases h with
  | done => exact Tests.boolean _ _
  | stop first => exact Tests.foldl_of_stop hop _ first
  | next first others => exact others.foldl hop _ first

/-- A combination has the result of its operands, also when a literal among them decides it, as long
as they have no effect then. -/
theorem Sweeps.combination {op : BinaryOp} {stop result : Bool} (hop : op.stop? = some stop)
    {exprs : List Expr} (h : Sweeps world env stop heap exprs result after)
    (hpure : result = stop → .boolean stop ∈ Expr.flatten op exprs → after = heap) :
    Tests world env heap (Expr.combination op stop exprs) result after := by
  have hflat : Sweeps world env stop heap (Expr.flatten op exprs) result after :=
    h.flatMap fun expr _ before result after ht => ht.operands hop
  rw [Expr.combination]
  split
  · rename_i hany
    obtain ⟨operand, hmem, hlit⟩ := List.any_eq_true.mp hany
    rw [Expr.isBoolean_eq.mp hlit] at hmem
    have hresult := hflat.result_of_mem hmem
    rw [hpure hresult hmem, hresult]
    exact Tests.boolean stop heap
  · exact hflat.filter.chain hop

/-- The expression is a test without effects that tells whether the proposition holds. -/
def Decides (world : World) (env : Env) (expr : Expr) (p : Prop) : Prop :=
  ∃ result : Bool, (result = true ↔ p) ∧ ∀ heap, Tests world env heap expr result heap

/-- One after the other, the tests tell whether all of something holds. -/
def DecidesAll (world : World) (env : Env) (exprs : List Expr) (p : Prop) : Prop :=
  ∃ result : Bool, (result = true ↔ p) ∧ ∀ heap, Sweeps world env false heap exprs result heap

/-- One after the other, the tests tell whether any of something holds. -/
def DecidesAny (world : World) (env : Env) (exprs : List Expr) (p : Prop) : Prop :=
  ∃ result : Bool, (result = true ↔ p) ∧ ∀ heap, Sweeps world env true heap exprs result heap

variable {expr : Expr} {exprs : List Expr} {p q : Prop}

/-- What decides one property decides an equivalent one. -/
theorem Decides.congr (h : Decides world env expr p) (hpq : p ↔ q) : Decides world env expr q := by
  obtain ⟨result, hresult, htests⟩ := h
  exact ⟨result, hresult.trans hpq, htests⟩

/-- A literal flag decides itself. -/
theorem Decides.boolean (value : Bool) : Decides world env (.boolean value) (value = true) :=
  ⟨value, Iff.rfl, Tests.boolean value⟩

/-- A single condition that has a flag as its value decides what the flag says. -/
theorem Decides.of_evaluates {value : Bool} (hshape : expr.IsSingle) (hvalue : value = true ↔ p)
    (h : Evaluates world env expr (.data (.boolean value))) : Decides world env expr p :=
  ⟨value, hvalue, fun heap => .single hshape (h heap)⟩

/-- No conditions decide what always holds. -/
theorem DecidesAll.nil : DecidesAll world env [] True :=
  ⟨true, by simp, Sweeps.done⟩

/-- A test protects those behind it: they are evaluated only if it holds. -/
theorem DecidesAll.cons (h : Decides world env expr p) (hrest : p → DecidesAll world env exprs q) :
    DecidesAll world env (expr :: exprs) (p ∧ q) := by
  obtain ⟨result, hresult, htests⟩ := h
  cases result with
  | false =>
    have hp : ¬ p := fun hp => Bool.false_ne_true (hresult.mpr hp)
    exact ⟨false, by simp [hp], fun heap => .stop (htests heap)⟩
  | true =>
    have hp : p := hresult.mp rfl
    obtain ⟨last, hlast, hsweeps⟩ := hrest hp
    exact ⟨last, by simp [hp, hlast], fun heap => .next (htests heap) (hsweeps heap)⟩

/-- No conditions decide what never holds. -/
theorem DecidesAny.nil : DecidesAny world env [] False :=
  ⟨false, by simp, Sweeps.done⟩

/-- A test protects those behind it: they are evaluated only if it does not hold. -/
theorem DecidesAny.cons (h : Decides world env expr p)
    (hrest : ¬ p → DecidesAny world env exprs q) :
    DecidesAny world env (expr :: exprs) (p ∨ q) := by
  obtain ⟨result, hresult, htests⟩ := h
  cases result with
  | true =>
    have hp : p := hresult.mp rfl
    exact ⟨true, by simp [hp], fun heap => .stop (htests heap)⟩
  | false =>
    have hp : ¬ p := fun hp => Bool.false_ne_true (hresult.mpr hp)
    obtain ⟨last, hlast, hsweeps⟩ := hrest hp
    exact ⟨last, by simp [hp, hlast], fun heap => .next (htests heap) (hsweeps heap)⟩

/-- A conjunction of conditions decides whether all of them hold. -/
theorem DecidesAll.conjunction (h : DecidesAll world env exprs p) :
    Decides world env (.conjunction exprs) p := by
  obtain ⟨result, hresult, hsweeps⟩ := h
  rw [Expr.conjunction_eq]
  exact ⟨result, hresult, fun heap => (hsweeps heap).combination rfl fun _ _ => rfl⟩

/-- A disjunction of conditions decides whether one of them holds. -/
theorem DecidesAny.disjunction (h : DecidesAny world env exprs p) :
    Decides world env (.disjunction exprs) p := by
  obtain ⟨result, hresult, hsweeps⟩ := h
  rw [Expr.disjunction_eq]
  exact ⟨result, hresult, fun heap => (hsweeps heap).combination rfl fun _ _ => rfl⟩

end Runtime

end TypedRoutes
