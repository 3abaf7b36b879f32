import TypedRoutes.Proofs.Runtime.Machine

/-!
# A calculus of runs

One rule for every form of expression that generated programs are made of: from what the parts yield
follows what the whole yields. Proofs about programs use these rules and never open the evaluator.
-/

namespace TypedRoutes.Runtime

/-- The run ends with a value and leaves the given heap. -/
def Run.Yields {α : Type} (run : Run α) (heap : Heap) (value : α) (after : Heap) : Prop :=
  run heap = ExceptT.mk (some (.ok (value, after)))

/-- The process ends with a value and leaves the given heap, whenever it is given enough steps. -/
def Process.Yields {α : Type} (process : Process α) (heap : Heap) (value : α) (after : Heap) :
    Prop :=
  ∃ enough, ∀ fuel, enough ≤ fuel → (process fuel).Yields heap value after

variable {α β : Type} {heap middle after : Heap}

namespace Run.Yields

/-- A value that is there already. -/
theorem pure (value : α) (heap : Heap) : Run.Yields (Pure.pure value) heap value heap := rfl

/-- Runs one after the other. -/
theorem bind {run : Run α} {next : α → Run β} {a : α} {b : β} (h : run.Yields heap a middle)
    (hn : (next a).Yields middle b after) : (run >>= next).Yields heap b after := by
  unfold Run.Yields at *
  simp only [Bind.bind, StateT.bind, ExceptT.bind, ExceptT.mk, Option.bind, ExceptT.bindCont, h]
  exact hn

/-- A run has one result. -/
theorem unique {run : Run α} {a b : α} (ha : run.Yields heap a middle)
    (hb : run.Yields heap b after) : a = b ∧ middle = after := by
  have h : some (.ok (a, middle) : Except Failure (α × Heap)) = some (.ok (b, after)) :=
    ha.symm.trans hb
  simpa only [Option.some.injEq, Except.ok.injEq, Prod.mk.injEq] using h

end Run.Yields

namespace Process.Yields

/-- A run that needs no steps of its own. -/
theorem of_run {run : Run α} {a : α} (h : run.Yields heap a after) :
    Process.Yields (fun _ => run) heap a after :=
  ⟨0, fun _ _ => h⟩

/-- A value that is there already needs no steps. -/
theorem pure (value : α) (heap : Heap) :
    Process.Yields (fun _ => Pure.pure value) heap value heap :=
  of_run (.pure value heap)

/-- Processes one after the other. -/
theorem bind {process : Process α} {next : α → Process β} {a : α} {b : β}
    (h : process.Yields heap a middle) (hn : (next a).Yields middle b after) :
    Process.Yields (fun fuel => process fuel >>= fun a => next a fuel) heap b after := by
  obtain ⟨enough, hfirst⟩ := h
  obtain ⟨more, hnext⟩ := hn
  refine ⟨max enough more, fun fuel hfuel => ?_⟩
  exact (hfirst fuel (Nat.le_trans (Nat.le_max_left _ _) hfuel)).bind
    (hnext fuel (Nat.le_trans (Nat.le_max_right _ _) hfuel))

/-- The first step of a process. -/
theorem step {process : Process α} {a : α}
    (h : Process.Yields (fun fuel => process (fuel + 1)) heap a after) :
    process.Yields heap a after := by
  obtain ⟨enough, hyields⟩ := h
  refine ⟨enough + 1, fun fuel hfuel => ?_⟩
  obtain ⟨before, rfl⟩ := Nat.exists_eq_add_of_le' (Nat.le_trans (Nat.le_add_left 1 enough) hfuel)
  exact hyields before (Nat.le_of_succ_le_succ hfuel)

/-- A process has one result. -/
theorem unique {process : Process α} {a b : α} (ha : process.Yields heap a middle)
    (hb : process.Yields heap b after) : a = b ∧ middle = after := by
  obtain ⟨enough, ha⟩ := ha
  obtain ⟨more, hb⟩ := hb
  exact (ha _ (Nat.le_max_left enough more)).unique (hb _ (Nat.le_max_right enough more))

end Process.Yields

/-- The run fails. -/
def Run.Fails {α : Type} (run : Run α) (heap : Heap) (failure : Failure) : Prop :=
  run heap = ExceptT.mk (some (.error failure))

/-- The process fails whenever it is given enough steps. -/
def Process.Fails {α : Type} (process : Process α) (heap : Heap) (failure : Failure) : Prop :=
  ∃ enough, ∀ fuel, enough ≤ fuel → (process fuel).Fails heap failure

/-- Nothing follows a failure. -/
theorem Run.Fails.bind {run : Run α} {failure : Failure} (h : run.Fails heap failure)
    (next : α → Run β) : (run >>= next).Fails heap failure := by
  unfold Run.Fails at *
  simp only [Bind.bind, StateT.bind, ExceptT.bind, ExceptT.mk, Option.bind, ExceptT.bindCont, h]
  rfl

/-- What follows fails. -/
theorem Run.Yields.bind_fails {run : Run α} {next : α → Run β} {a : α} {failure : Failure}
    (h : run.Yields heap a middle) (hn : (next a).Fails middle failure) :
    (run >>= next).Fails heap failure := by
  unfold Run.Yields Run.Fails at *
  simp only [Bind.bind, StateT.bind, ExceptT.bind, ExceptT.mk, Option.bind, ExceptT.bindCont, h]
  exact hn

namespace Process

/-- With so many steps fewer for the one, the processes do the same. -/
def Joins (process other : Process α) : Prop :=
  ∃ m n, ∀ fuel, process (fuel + m) = other (fuel + n)

variable {process other : Process α}

/-- A process that joins another after one more step joins it. -/
theorem Joins.of_succ (h : ∀ fuel, process (fuel + 1) = other fuel) : process.Joins other :=
  ⟨1, 0, h⟩

theorem Joins.refl (process : Process α) : process.Joins process :=
  ⟨0, 0, fun _ => rfl⟩

theorem Joins.symm (h : process.Joins other) : other.Joins process := by
  obtain ⟨m, n, h⟩ := h
  exact ⟨n, m, fun fuel => (h fuel).symm⟩

/-- What joins a process joins what that one joins. -/
theorem Joins.trans {third : Process α} (h : process.Joins other) (ht : other.Joins third) :
    process.Joins third := by
  obtain ⟨m, n, h⟩ := h
  obtain ⟨k, l, ht⟩ := ht
  refine ⟨m + k, l + n, fun fuel => ?_⟩
  calc process (fuel + (m + k)) = process (fuel + k + m) := by congr 1; omega
    _ = other (fuel + k + n) := h _
    _ = other (fuel + n + k) := by congr 1; omega
    _ = third (fuel + n + l) := ht _
    _ = third (fuel + (l + n)) := by congr 1; omega

/-- Processes that join go on alike. -/
theorem Joins.bind (h : process.Joins other) (next : α → Run β) :
    Joins (fun fuel => process fuel >>= next) (fun fuel => other fuel >>= next) := by
  obtain ⟨m, n, h⟩ := h
  exact ⟨m, n, fun fuel => by simp only [h fuel]⟩

/-- What one process comes to, the other does too. -/
theorem Joins.eventually (h : process.Joins other) (p : Run α → Prop)
    (hp : ∃ enough, ∀ fuel, enough ≤ fuel → p (other fuel)) :
    ∃ enough, ∀ fuel, enough ≤ fuel → p (process fuel) := by
  obtain ⟨m, n, h⟩ := h
  obtain ⟨enough, hp⟩ := hp
  refine ⟨enough + m, fun fuel hfuel => ?_⟩
  obtain ⟨before, rfl⟩ := Nat.exists_eq_add_of_le' (Nat.le_trans (Nat.le_add_left m enough) hfuel)
  rw [h]
  exact hp _ (by omega)

/-- What joins a process yields what that one yields. -/
theorem Joins.yields (h : process.Joins other) {a : α} (hy : other.Yields heap a after) :
    process.Yields heap a after :=
  h.eventually (Run.Yields · heap a after) hy

/-- What joins a process fails as that one does. -/
theorem Joins.fails (h : process.Joins other) {failure : Failure}
    (hf : other.Fails heap failure) : process.Fails heap failure :=
  h.eventually (Run.Fails · heap failure) hf

/-- A failure after one more step is a failure. -/
theorem Fails.step {failure : Failure}
    (h : Fails (fun fuel => process (fuel + 1)) heap failure) : process.Fails heap failure :=
  (Joins.of_succ fun _ => rfl).fails h

/-- Nothing follows a failure. -/
theorem Fails.bind {failure : Failure} (h : process.Fails heap failure)
    (next : α → Process β) :
    Fails (fun fuel => process fuel >>= fun a => next a fuel) heap failure := by
  obtain ⟨enough, h⟩ := h
  exact ⟨enough, fun fuel hfuel => (h fuel hfuel).bind _⟩

/-- What follows fails. -/
theorem Yields.bind_fails {next : α → Process β} {a : α} {failure : Failure}
    (h : process.Yields heap a middle) (hn : (next a).Fails middle failure) :
    Fails (fun fuel => process fuel >>= fun a => next a fuel) heap failure := by
  obtain ⟨enough, hfirst⟩ := h
  obtain ⟨more, hnext⟩ := hn
  refine ⟨max enough more, fun fuel hfuel => ?_⟩
  exact (hfirst fuel (Nat.le_trans (Nat.le_max_left _ _) hfuel)).bind_fails
    (hnext fuel (Nat.le_trans (Nat.le_max_right _ _) hfuel))

end Process

/-- The expression yields a value wherever it is evaluated, and changes nothing. -/
def Evaluates (world : World) (env : Env) (expr : Expr) (value : Value) : Prop :=
  ∀ heap, (eval world env expr).Yields heap value heap

variable {world : World} {env : Env}

/-! ## Names, literals and accesses -/

/-- A name that is bound stands for its value. -/
theorem readName_bound {name : String} {value : Value} (h : env.lookup? name = some value) :
    (readName world env name).Yields heap value heap := by
  simp only [readName, h]
  exact .pure value heap

/-- A standard name that is free stands for what it always does. -/
theorem readName_standard {name : String} {value : Data} (hfree : env.lookup? name = none)
    (h : standard? name = some value) :
    (readName world env name).Yields heap (.data value) heap := by
  simp only [readName, hfree, h, Option.some_or]
  exact .pure _ heap

/-- A property of present data is what the world says. -/
theorem readProperty_data {value : Data} (h : value.isPresent = true) (name : String) :
    (readProperty world (.data value) name).Yields heap (.data (world.get value name)) heap := by
  simp only [readProperty, h, ite_true]
  exact .pure _ heap

/-- A bound name evaluates to its value. -/
theorem Evaluates.bound {name : String} {value : Value} (h : env.lookup? name = some value) :
    Evaluates world env (.identifier name) value := by
  intro heap
  refine .step ?_
  simp only [eval]
  exact .of_run (readName_bound h)

/-- A free standard name evaluates to what it always stands for. -/
theorem Evaluates.standard {name : String} {value : Data} (hfree : env.lookup? name = none)
    (h : standard? name = some value) : Evaluates world env (.identifier name) (.data value) := by
  intro heap
  refine .step ?_
  simp only [eval]
  exact .of_run (readName_standard hfree h)

theorem Evaluates.string (value : String) :
    Evaluates world env (.string value) (.data (.string value)) := by
  intro heap
  refine .step ?_
  simp only [eval]
  exact .pure _ heap

theorem Evaluates.number (value : Float) :
    Evaluates world env (.number value) (.data (.number value)) := by
  intro heap
  refine .step ?_
  simp only [eval]
  exact .pure _ heap

theorem Evaluates.boolean (value : Bool) :
    Evaluates world env (.boolean value) (.data (.boolean value)) := by
  intro heap
  refine .step ?_
  simp only [eval]
  exact .pure _ heap

theorem Evaluates.null : Evaluates world env .null (.data .null) := by
  intro heap
  refine .step ?_
  simp only [eval]
  exact .pure _ heap

/-- A closure keeps the names around it. -/
theorem Evaluates.closure (params : List String) (body : Body) :
    Evaluates world env (.arrow params body) (.closure params body env) := by
  intro heap
  refine .step ?_
  simp only [eval]
  exact .pure _ heap

/-- A property of what the target gives. -/
theorem yields_property {target : Expr} {value : Data}
    (h : (eval world env target).Yields heap (.data value) after)
    (hp : value.isPresent = true) (name : String) :
    (eval world env (.property target name)).Yields heap (.data (world.get value name)) after := by
  refine .step ?_
  simp only [eval]
  exact h.bind (.of_run (readProperty_data hp name))

/-- An access by a key that is computed. -/
theorem yields_element_key {target index : Expr} {value : Data} {key : String}
    (h : (eval world env target).Yields heap (.data value) middle)
    (hi : (eval world env index).Yields middle (.data (.string key)) after)
    (hp : value.isPresent = true) :
    (eval world env (.element target index)).Yields heap (.data (world.get value key)) after := by
  refine .step ?_
  simp only [eval]
  exact h.bind (hi.bind (.of_run (readProperty_data hp key)))

/-- An access by a position that is computed. -/
theorem yields_element_position {target index : Expr} {items : List Data} {position : Float}
    (h : (eval world env target).Yields heap (.data (.array items)) middle)
    (hi : (eval world env index).Yields middle (.data (.number position)) after) :
    (eval world env (.element target index)).Yields heap
      (.data (world.item items position)) after := by
  refine .step ?_
  simp only [eval]
  exact h.bind (hi.bind (.pure _ after))

/-! ## Operators -/

/-- The name of the run-time type. -/
theorem yields_typeOf {operand : Expr} {value : Value}
    (h : (eval world env operand).Yields heap value after) :
    (eval world env (.typeOf operand)).Yields heap (.data (.string value.typeName)) after := by
  refine .step ?_
  simp only [Expr.typeOf, eval]
  exact h.bind (.pure _ after)

/-- A negation turns the truth of its operand. -/
theorem yields_not {operand : Expr} {value : Value}
    (h : (eval world env operand).Yields heap value after) :
    (eval world env (.negation operand)).Yields heap (.data (.boolean !value.truthy)) after := by
  refine .step ?_
  simp only [Expr.negation, eval]
  exact h.bind (.pure _ after)

/-- Data of which it is told whether they are equal are compared without effect. -/
theorem strictEquals_data {left right : Data} {result : Bool}
    (h : left.strictEquals? right = some result) :
    (strictEquals (.data left) (.data right)).Yields heap result heap := by
  simp only [strictEquals, h]
  exact .pure result heap

/-- Equality of what both sides give. -/
theorem yields_equals {left right : Expr} {a b : Data} {result : Bool}
    (hl : (eval world env left).Yields heap (.data a) middle)
    (hr : (eval world env right).Yields middle (.data b) after)
    (h : a.strictEquals? b = some result) :
    (eval world env (.equals left right)).Yields heap (.data (.boolean result)) after := by
  refine .step ?_
  simp only [Expr.equals, eval]
  exact hl.bind (hr.bind (.of_run ((strictEquals_data h).bind (.pure _ after))))

/-- Inequality of what both sides give. -/
theorem yields_differs {left right : Expr} {a b : Data} {result : Bool}
    (hl : (eval world env left).Yields heap (.data a) middle)
    (hr : (eval world env right).Yields middle (.data b) after)
    (h : a.strictEquals? b = some result) :
    (eval world env (.differs left right)).Yields heap (.data (.boolean !result)) after := by
  refine .step ?_
  simp only [Expr.differs, eval]
  exact hl.bind (hr.bind (.of_run ((strictEquals_data h).bind (.pure _ after))))

/-- A conjunction stops at what is not truthy. -/
theorem yields_and_stop {left right : Expr} {value : Value}
    (h : (eval world env left).Yields heap value after) (hv : value.truthy = false) :
    (eval world env (.binary .and left right)).Yields heap value after := by
  refine .step ?_
  simp only [eval]
  refine h.bind ?_
  simp only [hv, Bool.false_eq_true, ite_false]
  exact .pure value after

/-- A conjunction goes on behind what is truthy. -/
theorem yields_and_next {left right : Expr} {value result : Value}
    (h : (eval world env left).Yields heap value middle) (hv : value.truthy = true)
    (hr : (eval world env right).Yields middle result after) :
    (eval world env (.binary .and left right)).Yields heap result after := by
  refine .step ?_
  simp only [eval]
  refine h.bind ?_
  simpa only [hv, ite_true] using hr

/-- A disjunction stops at what is truthy. -/
theorem yields_or_stop {left right : Expr} {value : Value}
    (h : (eval world env left).Yields heap value after) (hv : value.truthy = true) :
    (eval world env (.binary .or left right)).Yields heap value after := by
  refine .step ?_
  simp only [eval]
  refine h.bind ?_
  simp only [hv, ite_true]
  exact .pure value after

/-- A disjunction goes on behind what is not truthy. -/
theorem yields_or_next {left right : Expr} {value result : Value}
    (h : (eval world env left).Yields heap value middle) (hv : value.truthy = false)
    (hr : (eval world env right).Yields middle result after) :
    (eval world env (.binary .or left right)).Yields heap result after := by
  refine .step ?_
  simp only [eval]
  refine h.bind ?_
  simpa only [hv, Bool.false_eq_true, ite_false] using hr

/-- A sum of what both sides give. -/
theorem yields_plus {left right : Expr} {a b result : Value}
    (hl : (eval world env left).Yields heap a middle)
    (hr : (eval world env right).Yields middle b after)
    (h : (plus world a b).Yields after result after) :
    (eval world env (.binary .plus left right)).Yields heap result after := by
  refine .step ?_
  simp only [eval]
  refine hl.bind (hr.bind ?_)
  exact .of_run h

/-- Only the chosen branch of a conditional is evaluated. -/
theorem yields_conditional {condition whenTrue whenFalse : Expr} {value result : Value}
    (h : (eval world env condition).Yields heap value middle)
    (hr : (eval world env (if value.truthy then whenTrue else whenFalse)).Yields middle result
      after) :
    (eval world env (.conditional condition whenTrue whenFalse)).Yields heap result after := by
  refine .step ?_
  simp only [eval]
  refine h.bind ?_
  cases hv : value.truthy <;> simpa [hv] using hr

/-! ## Literals with parts -/

theorem evalAll_nil : (evalAll world env []).Yields heap [] heap := by
  refine .step ?_
  simp only [evalAll]
  exact .pure _ heap

/-- Several expressions are evaluated from left to right. -/
theorem evalAll_cons {expr : Expr} {rest : List Expr} {value : Value} {values : List Value}
    (h : (eval world env expr).Yields heap value middle)
    (hr : (evalAll world env rest).Yields middle values after) :
    (evalAll world env (expr :: rest)).Yields heap (value :: values) after := by
  refine .step ?_
  simp only [evalAll]
  exact h.bind (hr.bind (.pure _ after))

theorem evalEntries_nil : (evalEntries world env []).Yields heap [] heap := by
  refine .step ?_
  simp only [evalEntries]
  exact .pure _ heap

/-- Entries are evaluated from left to right. -/
theorem evalEntries_cons {key : String} {expr : Expr} {rest : List Entry} {value : Value}
    {members : List (String × Value)} (h : (eval world env expr).Yields heap value middle)
    (hr : (evalEntries world env rest).Yields middle members after) :
    (evalEntries world env (.mk key expr :: rest)).Yields heap ((key, value) :: members) after := by
  refine .step ?_
  simp only [evalEntries]
  exact h.bind (hr.bind (.pure _ after))

/-- An object of what its entries give. -/
theorem yields_object {entries : List Entry} {members : List (String × Value)}
    (h : (evalEntries world env entries).Yields heap members after) :
    (eval world env (.object entries)).Yields heap (makeObject members) after := by
  refine .step ?_
  simp only [eval]
  exact h.bind (.pure _ after)

/-- Values that are data are data all together. -/
theorem allData?_map (values : List Data) : allData? (values.map Value.data) = some values := by
  induction values with
  | nil => rfl
  | cons value rest ih =>
    simp only [allData?] at ih
    simp [allData?, ih, Value.data?]

/-- An array of data is data itself. -/
theorem yields_array {expr : Expr} {rest : List Expr} {values : List Data}
    (h : (evalAll world env (expr :: rest)).Yields heap (values.map .data) after)
    (hne : values ≠ []) :
    (eval world env (.array (expr :: rest))).Yields heap (.data (.array values)) after := by
  refine .step ?_
  simp only [eval]
  refine h.bind ?_
  obtain ⟨value, more, rfl⟩ := List.exists_cons_of_ne_nil hne
  simp only [List.map_cons, makeArray]
  rw [← List.map_cons, allData?_map]
  exact .pure _ after

/-! ## Calls -/

/-- A call evaluates the function, then the arguments, and then applies the one to the others. -/
theorem yields_invoke {callee : Expr} {arguments : List Expr} {function this : Value}
    {values : List Value} {result : Value} {called : Heap}
    (hc : (evalCallee world env callee).Yields heap (function, this) middle)
    (ha : (evalAll world env arguments).Yields middle values called)
    (h : (apply world function this values).Yields called result after) :
    (eval world env (.invoke callee arguments)).Yields heap result after := by
  refine .step ?_
  simp only [Expr.invoke, eval]
  exact hc.bind (ha.bind h)

/-- A method: a function that is called on what it is a property of. -/
theorem evalCallee_property {target : Expr} {value : Data}
    (h : (eval world env target).Yields heap (.data value) after)
    (hp : value.isPresent = true) (name : String) :
    (evalCallee world env (.property target name)).Yields heap
      (.data (world.get value name), .data value) after := by
  refine .step ?_
  simp only [evalCallee]
  exact h.bind (.of_run ((readProperty_data hp name).bind (.pure _ after)))

/-- A function that is called by its name is told of no object. -/
theorem evalCallee_identifier {name : String} {value : Value}
    (h : (eval world env (.identifier name)).Yields heap value after) :
    (evalCallee world env (.identifier name)).Yields heap (value, .data .undefined) after := by
  refine .step ?_
  simp only [evalCallee]
  exact h.bind (.pure _ after)

/-- A call of a closure whose body is an expression. -/
theorem apply_closure {params : List String} {body : Expr} {scope : Env} {this : Value}
    {values : List Value} {result : Value}
    (h : (eval world (.bindAll params values scope) body).Yields heap result after) :
    (apply world (.closure params (.concise body) scope) this values).Yields heap result after := by
  refine .step ?_
  simp only [apply]
  exact h

-- Every proof about blocks opens these two: their equations are made here once, ahead of them all.
attribute [local simp] Declared.ofStmt? leadingFunctions

/-- Returning takes one step. -/
theorem exec_returns_joins (expr : Expr) (rest : List Stmt) :
    (exec world env (.returns expr :: rest)).Joins fun fuel =>
      eval world env expr fuel >>= fun value => pure (some value) := by
  refine .of_succ fun fuel => ?_
  simp only [exec, leadingFunctions, Declared.ofStmt?]

/-- A block ends where something is returned. -/
theorem exec_returns {expr : Expr} {value : Value}
    (h : (eval world env expr).Yields heap value after) (rest : List Stmt) :
    (exec world env (.returns expr :: rest)).Yields heap (some value) after := by
  refine .step ?_
  simp only [exec, leadingFunctions, Declared.ofStmt?]
  exact h.bind (.pure _ after)

/-- A block fails where something is thrown. -/
theorem exec_throws {expr : Expr} {value : Data}
    (h : (eval world env expr).Yields heap (.data value) after) (rest : List Stmt) :
    (exec world env (.throws expr :: rest)).Fails heap (.thrown value) := by
  refine .step ?_
  simp only [exec, leadingFunctions, Declared.ofStmt?]
  exact h.bind_fails ⟨0, fun _ _ => rfl⟩

/-- A block fails if what should be thrown cannot be evaluated. -/
theorem exec_throws_fails {expr : Expr} {failure : Failure}
    (h : (eval world env expr).Fails heap failure) (rest : List Stmt) :
    (exec world env (.throws expr :: rest)).Fails heap failure := by
  refine .step ?_
  simp only [exec, leadingFunctions, Declared.ofStmt?]
  exact h.bind _

/-- A branch that returns nothing is followed by the rest of the block. -/
theorem exec_branch_next {condition : Expr} {consequent alternative rest : List Stmt}
    {value : Value} {result : Option Value} {taken : Heap}
    (h : (eval world env condition).Yields heap value middle)
    (hb : (exec world env (if value.truthy then consequent else alternative)).Yields middle none
      taken)
    (hr : (exec world env rest).Yields taken result after) :
    (exec world env (.branch condition consequent alternative :: rest)).Yields heap result
      after := by
  refine .step ?_
  simp only [exec, leadingFunctions, Declared.ofStmt?]
  exact h.bind (hb.bind hr)

/-- A block fails where the chosen branch does. -/
theorem exec_branch_fails {condition : Expr} {consequent alternative rest : List Stmt}
    {value : Value} {failure : Failure}
    (h : (eval world env condition).Yields heap value middle)
    (hb : (exec world env (if value.truthy then consequent else alternative)).Fails middle
      failure) :
    (exec world env (.branch condition consequent alternative :: rest)).Fails heap failure := by
  refine .step ?_
  simp only [exec, leadingFunctions, Declared.ofStmt?]
  exact h.bind_fails (hb.bind _)

/-- An empty block goes on with nothing. -/
theorem exec_nil : (exec world env []).Yields heap none heap := by
  refine .step ?_
  simp only [exec, leadingFunctions]
  exact .pure none heap

/-- A constant is bound for the rest of its block. -/
theorem exec_const {name : String} {expr : Expr} {rest : List Stmt} {value : Value}
    {result : Option Value} (hfunction : Declared.ofStmt? (.const name expr) = none)
    (h : (eval world env expr).Yields heap value middle)
    (hr : (exec world (.bind name value env) rest).Yields middle result after) :
    (exec world env (.const name expr :: rest)).Yields heap result after := by
  refine .step ?_
  simp only [exec, leadingFunctions, hfunction]
  exact h.bind hr

end TypedRoutes.Runtime
