import TypedRoutes.Artifact.Closure
import TypedRoutes.Proofs.Checks.Conditions
import TypedRoutes.Proofs.Runtime.Texts

/-!
# Tests that report

A validating expression tests like a check and adds mismatches to a list. Such a test fails exactly
if it adds any. What is added is followed through the ways in which validators are put together: a
report behind a failed condition, a conjunction of a condition and the flags of parts, flags
collected in an array or by a loop.
-/

namespace TypedRoutes

namespace Runtime

variable {world : World} {env : Env} {errors : Nat} {p : Prop} {expr : Expr} {exprs : List Expr}
  {listed : List Data}

/-- Adds mismatches to the list that is kept under an address. -/
def Heap.report (heap : Heap) (errors : Nat) (mismatches : List Data) : Heap :=
  heap.modify errors (· ++ mismatches)

/-- To report nothing changes nothing. -/
theorem Heap.report_nil (heap : Heap) (errors : Nat) : heap.report errors [] = heap := by
  simp only [report, List.append_nil]
  exact List.modify_id errors heap

/-- Reports are put one behind the other. -/
theorem Heap.report_append (heap : Heap) (errors : Nat) (first others : List Data) :
    (heap.report errors first).report errors others = heap.report errors (first ++ others) := by
  simp only [report]
  rw [List.modify_modify_eq]
  congr 1
  funext items
  exact List.append_assoc items first others

/-- The expression is a test that adds the given mismatches, and fails if there are any. -/
def Lists (world : World) (env : Env) (errors : Nat) (expr : Expr) (listed : List Data) : Prop :=
  ∀ heap, Tests world env heap expr listed.isEmpty (heap.report errors listed)

/-- All expressions are evaluated, and together they add the given mismatches. -/
def ListsEach (world : World) (env : Env) (errors : Nat) (exprs : List Expr)
    (listed : List Data) : Prop :=
  ∃ flags : List Bool, flags.length = exprs.length ∧ flags.all id = listed.isEmpty ∧
    ∀ heap, (evalAll world env exprs).Yields heap (flags.map fun flag => .data (.boolean flag))
      (heap.report errors listed)

namespace Lists

/-- A test that holds and changes nothing lists nothing. -/
theorem of_unchanged (h : ∀ heap, Tests world env heap expr true heap) :
    Lists world env errors expr [] := by
  intro heap
  rw [Heap.report_nil]
  exact h heap

/-- A literal adds nothing. -/
theorem eq_nil (h : Lists world env errors (.boolean true) listed) : listed = [] :=
  List.isEmpty_iff.mp (h []).of_boolean.1

/-- Nothing is listed for parts whose validator is the literal true. -/
theorem flatten_eq_nil {entries : List (Data × Nat)} {envs : Data × Nat → Env}
    {listeds : List (List Data)} (h : List.Forall₂ (fun entry listed =>
      Lists world (envs entry) errors (.boolean true) listed) entries listeds) :
    listeds.flatten = [] := by
  induction h with
  | nil => rfl
  | cons hlisted _ ih => rw [List.flatten_cons, hlisted.eq_nil, ih, List.append_nil]

/-- The literal true lists nothing. -/
theorem boolean_true : Lists world env errors (.boolean true) [] :=
  of_unchanged (Tests.boolean true)

/-- A test behind a condition, evaluated only if the condition does not hold. -/
theorem disjunction {condition : Expr} (h : Decides world env condition p)
    (hnothing : p → listed = []) (hrest : ¬ p → Lists world env errors expr listed) :
    Lists world env errors (.disjunction [condition, expr]) listed := by
  obtain ⟨holds, hholds, htests⟩ := h
  rw [Expr.disjunction_eq]
  cases holds with
  | true =>
    obtain rfl : listed = [] := hnothing (hholds.mp rfl)
    exact of_unchanged fun heap => Sweeps.combination rfl (.stop (htests heap)) fun _ _ => rfl
  | false =>
    intro heap
    have hp : ¬ p := fun hp => Bool.false_ne_true (hholds.mpr hp)
    refine (Sweeps.next (htests heap) (.singleton (hrest hp heap))).combination rfl
      fun hstop _ => ?_
    rw [List.isEmpty_iff.mp hstop, Heap.report_nil]

/-- A test behind another one, evaluated only if that one adds nothing. The first one must not lose
its reports: it is no chain that a literal decides. -/
theorem conjunction {head : Expr} {first : List Data} (h : Lists world env errors head first)
    (hstop : first ≠ [] → listed = first) (hrest : first = [] → Lists world env errors expr listed)
    (hhead : .boolean false ∉ head.operands .and) (hexpr : .boolean false ∉ expr.operands .and) :
    Lists world env errors (.conjunction [head, expr]) listed := by
  have hliteral : .boolean false ∉ Expr.flatten .and [head, expr] := by
    simp [Expr.flatten, hhead, hexpr]
  rw [Expr.conjunction_eq]
  intro heap
  have hfirst := h heap
  cases first with
  | cons mismatch others =>
    rw [hstop (by simp)]
    exact Sweeps.combination rfl (.stop hfirst) fun _ hmem => absurd hmem hliteral
  | nil =>
    rw [Heap.report_nil] at hfirst
    exact Sweeps.combination rfl (.next hfirst (.singleton (hrest rfl heap))) fun _ hmem =>
      absurd hmem hliteral

end Lists

/-! ## Reports -/

/-- What the collecting function does. -/
def reportStatements : List Stmt :=
  [.expression (.invoke (.property (.identifier "errors") "push")
      [.objectOf [("path", .identifier "path"), ("expected", .identifier "expected"),
        ("value", .identifier "value")]]),
    .returns (.boolean false)]

/-- The collecting function is in place and sees the list under the address. -/
def Env.Collects (env : Env) (errors : Nat) : Prop :=
  ∃ outer : Env, outer.lookup? "errors" = some (.cell errors) ∧
    env.lookup? Scope.reporter =
      some (.closure ["path", "expected", "value"] (.block reportStatements) outer)

/-- The reporter is no local name. -/
theorem not_local_reporter : ¬ Local Scope.reporter := by
  intro h
  have hhead := h.head_mem
  simp [Scope.reporter] at hhead

/-- What collects in an environment does so in those that extend it. -/
theorem Env.Collects.extends {base : Env} (h : base.Collects errors) (henv : base.Extends env) :
    env.Collects errors := by
  obtain ⟨outer, herrors, hlookup⟩ := h
  exact ⟨outer, herrors, (henv _ not_local_reporter).trans hlookup⟩

/-- A mismatch as it is listed. -/
def mismatch (path expected : String) (value : Data) : Data :=
  .object [("path", .string path), ("expected", .string expected), ("value", value)]

/-- The statements of the collecting function add one mismatch and give false. -/
theorem exec_reportStatements {outer : Env} (herrors : outer.lookup? "errors" = some (.cell errors))
    (path expected : String) (value : Data) (heap : Heap) :
    (exec world (.bind "value" (.data value) (.bind "expected" (.data (.string expected))
      (.bind "path" (.data (.string path)) outer))) reportStatements).Yields heap
        (some (.data (.boolean false))) (heap.report errors [mismatch path expected value]) := by
  generalize hinner : Env.bind "value" (.data value) (.bind "expected" (.data (.string expected))
    (.bind "path" (.data (.string path)) outer)) = inner
  have hlist : inner.lookup? "errors" = some (.cell errors) := by
    simpa [← hinner, Env.lookup?] using herrors
  have hpath : inner.lookup? "path" = some (.data (.string path)) := by
    simp [← hinner, Env.lookup?]
  have hexpected : inner.lookup? "expected" = some (.data (.string expected)) := by
    simp [← hinner, Env.lookup?]
  have hvalue : inner.lookup? "value" = some (.data value) := by
    simp [← hinner, Env.lookup?]
  have hcallee : (evalCallee world inner (.property (.identifier "errors") "push")).Yields heap
      (.data (.function (.native .push)), .cell errors) heap := by
    refine .step ?_
    simp only [evalCallee]
    exact (Evaluates.bound hlist heap).bind (.pure _ heap)
  have hentry : (eval world inner (.objectOf [("path", .identifier "path"),
      ("expected", .identifier "expected"), ("value", .identifier "value")])).Yields heap
        (.data (mismatch path expected value)) heap :=
    yields_object (evalEntries_cons (Evaluates.bound hpath heap) (evalEntries_cons
      (Evaluates.bound hexpected heap) (evalEntries_cons (Evaluates.bound hvalue heap)
        evalEntries_nil)))
  have hpush : (eval world inner (.invoke (.property (.identifier "errors") "push")
      [.objectOf [("path", .identifier "path"), ("expected", .identifier "expected"),
        ("value", .identifier "value")]])).Yields heap
          (.data (.number (Float.ofNat ((heap.getD errors []).length + 1))))
          (heap.report errors [mismatch path expected value]) := by
    refine yields_invoke hcallee (evalAll_cons hentry evalAll_nil) ?_
    refine .step ?_
    simp only [apply]
    exact .pure _ _
  refine .step ?_
  simp only [reportStatements, exec, leadingFunctions, Declared.ofStmt?]
  exact hpush.bind (exec_returns (Evaluates.boolean false _) [])

/-- A report of a mismatch lists that mismatch. -/
theorem Lists.mismatch {path input : Expr} {text : String} {value : Data}
    (hcollects : env.Collects errors) (hpath : Evaluates world env path (.data (.string text)))
    (expected : String) (hinput : Evaluates world env input (.data value)) :
    Lists world env errors (Scope.reportMismatch path expected input)
      [Runtime.mismatch text expected value] := by
  obtain ⟨outer, herrors, hlookup⟩ := hcollects
  intro heap
  refine .single (isSingle_invoke _ _) ?_
  refine yields_invoke (evalCallee_identifier (Evaluates.bound hlookup heap))
    (evalAll_cons (hpath heap) (evalAll_cons (Evaluates.string expected heap)
      (evalAll_cons (hinput heap) evalAll_nil))) ?_
  refine .step ?_
  simp only [apply]
  exact (exec_reportStatements herrors text expected value heap).bind (.pure _ _)

/-- A condition with a report behind it. -/
theorem Lists.orReport {condition path input : Expr} {text : String} {value : Data}
    (h : Decides world env condition p) (hcollects : env.Collects errors)
    (hpath : Evaluates world env path (.data (.string text))) (expected : String)
    (hinput : Evaluates world env input (.data value)) (hholds : p → listed = [])
    (hfails : ¬ p → listed = [Runtime.mismatch text expected value]) :
    Lists world env errors (Scope.orReport condition path expected input) listed := by
  refine Lists.disjunction h hholds fun hp => ?_
  rw [hfails hp]
  exact .mismatch hcollects hpath expected hinput

/-- A report is never dropped: what stands in front of it is not decided by a literal. -/
theorem false_not_mem_operands_orReport (condition path : Expr) (expected : String) (input : Expr) :
    .boolean false ∉ (Scope.orReport condition path expected input).operands .and := by
  rw [Scope.orReport, Expr.disjunction]
  split
  · simp [Expr.operands]
  · have hflat : Expr.flatten .or [condition, Scope.reportMismatch path expected input] =
        condition.operands .or ++ [Scope.reportMismatch path expected input] := by
      simp [Expr.flatten, Scope.reportMismatch, Expr.invoke, Expr.operands]
    have hkept : [Scope.reportMismatch path expected input].filter
        (fun operand => !operand.isBoolean false) =
          [Scope.reportMismatch path expected input] := rfl
    rw [hflat, List.filter_append, hkept]
    cases (condition.operands .or).filter fun operand => !operand.isBoolean false with
    | nil => simp [Expr.chain, Scope.reportMismatch, Expr.invoke, Expr.operands]
    | cons first rest =>
      rw [List.cons_append, Expr.chain, List.foldl_append]
      simp [Expr.operands]

/-! ## Flags -/

/-- All flags are set if the first list and all others are empty. -/
theorem all_flags_cons (listed : List Data) {flags : List Bool} {others : List Data}
    (h : flags.all id = others.isEmpty) :
    (listed.isEmpty :: flags).all id = (listed ++ others).isEmpty := by
  cases listed <;> simp [h]

/-- The flags of an array, one after the other. -/
theorem every_flags (items : List Data) (flags : List Bool) (position : Nat) (heap : Heap) :
    (every world (.closure ["flag"] (.concise (.identifier "flag")) env) items
      (flags.map .boolean) position).Yields heap (flags.all id) heap := by
  induction flags generalizing position with
  | nil => exact every_nil _ _ _
  | cons flag rest ih =>
    have hcall : (apply world (.closure ["flag"] (.concise (.identifier "flag")) env)
        (.data .undefined) [.data (.boolean flag), .data (.number (Float.ofNat position)),
          .data (.array items)]).Yields heap (.data (.boolean flag)) heap := by
      refine apply_closure ?_
      rw [bindAll_item]
      exact Evaluates.bound (Env.lookup?_bind_self _ _ _) heap
    cases flag with
    | false => exact every_stop hcall rfl
    | true => exact every_next hcall rfl (ih (position + 1))

/-- The test of all flags is true if all of them are set. -/
theorem yields_everyFlag {flags : List Bool} {heap after : Heap}
    (h : (eval world env expr).Yields heap (.data (.array (flags.map .boolean))) after) :
    (eval world env (Scope.everyFlag expr)).Yields heap (.data (.boolean (flags.all id)))
      after := by
  refine yields_method h (world.get_every _) (Evaluates.closure _ _ after) ?_
  refine .step ?_
  simp only [apply]
  exact (every_flags _ flags 0 after).bind (.pure _ after)

/-- The test of all flags is one condition. -/
theorem isSingle_everyFlag (expr : Expr) : (Scope.everyFlag expr).IsSingle :=
  isSingle_invoke _ _

/-- It is not false to begin with. -/
theorem false_not_mem_operands_everyFlag (expr : Expr) :
    .boolean false ∉ (Scope.everyFlag expr).operands .and := by
  simp [Scope.everyFlag, Expr.invoke, Expr.operands]

namespace ListsEach

theorem nil : ListsEach world env errors [] [] := by
  refine ⟨[], rfl, rfl, fun heap => ?_⟩
  rw [Heap.report_nil]
  exact evalAll_nil

/-- All of the expressions are evaluated, also behind one whose flag is false. -/
theorem cons {others : List Data} (h : Lists world env errors expr listed)
    (ho : ListsEach world env errors exprs others) :
    ListsEach world env errors (expr :: exprs) (listed ++ others) := by
  obtain ⟨flags, hlength, hflags, hrun⟩ := ho
  refine ⟨listed.isEmpty :: flags, by simp [hlength], all_flags_cons listed hflags, fun heap => ?_⟩
  have hrest := hrun (heap.report errors listed)
  rw [Heap.report_append] at hrest
  exact evalAll_cons (h heap).yields hrest

/-- Nothing is listed where there are no parts. -/
theorem eq_nil (h : ListsEach world env errors [] listed) : listed = [] := by
  obtain ⟨flags, hlength, hflags, -⟩ := h
  obtain rfl : flags = [] := List.eq_nil_of_length_eq_zero hlength
  exact List.isEmpty_iff.mp hflags.symm

/-- What always holds is left out. -/
theorem consUnlessTrue {others : List Data} (h : Lists world env errors expr listed)
    (ho : ListsEach world env errors exprs others) :
    ListsEach world env errors (if expr.isBoolean true then exprs else expr :: exprs)
      (listed ++ others) := by
  split
  · rename_i hliteral
    rw [Expr.isBoolean_eq.mp hliteral] at h
    rw [h.eq_nil]
    exact ho
  · exact .cons h ho

/-- The flags of all expressions in an array. -/
theorem everyFlag (h : ListsEach world env errors exprs listed) (hne : exprs ≠ []) :
    Lists world env errors (Scope.everyFlag (.array exprs)) listed := by
  obtain ⟨flags, hlength, hflags, hrun⟩ := h
  obtain ⟨first, rest, rfl⟩ := List.exists_cons_of_ne_nil hne
  intro heap
  rw [← hflags]
  refine .single (isSingle_everyFlag _) (yields_everyFlag ?_)
  refine yields_array ?_ ?_
  · rw [List.map_map]
    exact hrun heap
  · intro hnil
    simp [List.map_eq_nil_iff.mp hnil] at hlength

end ListsEach

/-- The body of a loop over an array, once for each item. -/
theorem mapItems_lists {params : List String} {body : Expr} {items rest : List Data}
    {position : Nat} {listeds : List (List Data)}
    (h : List.Forall₂ (fun entry listed => Lists world (.bindAll params [.data entry.1,
      .data (.number (Float.ofNat entry.2)), .data (.array items)] env) errors body listed)
        (rest.zipIdx position) listeds) :
    ∃ flags : List Bool, flags.all id = listeds.flatten.isEmpty ∧
      ∀ heap, (mapItems world (.closure params (.concise body) env) items rest position).Yields heap
        (flags.map .boolean) (heap.report errors listeds.flatten) := by
  induction rest generalizing position listeds with
  | nil =>
    cases h with
    | nil =>
      refine ⟨[], rfl, fun heap => .step ?_⟩
      rw [List.flatten_nil, Heap.report_nil]
      simp only [mapItems]
      exact .pure _ heap
  | cons item rest ih =>
    cases h with
    | @cons _ listed _ listeds hitem hrest =>
      obtain ⟨flags, hflags, hrun⟩ := ih hrest
      refine ⟨listed.isEmpty :: flags, all_flags_cons listed hflags, fun heap => .step ?_⟩
      have hothers := hrun (heap.report errors listed)
      rw [Heap.report_append] at hothers
      simp only [mapItems]
      exact (apply_closure (hitem heap).yields).bind
        ((Process.Yields.pure _ _).bind (hothers.bind (.pure _ _)))

/-- The flags that a loop over an array collects. -/
theorem Lists.everyFlag_map {target body : Expr} {params : List String} {items : List Data}
    {listeds : List (List Data)} (ht : Evaluates world env target (.data (.array items)))
    (h : List.Forall₂ (fun entry listed => Lists world (.bindAll params [.data entry.1,
      .data (.number (Float.ofNat entry.2)), .data (.array items)] env) errors body listed)
        items.zipIdx listeds) :
    Lists world env errors (Scope.everyFlag
      (.invoke (.property target "map") [.lambda params body])) listeds.flatten := by
  obtain ⟨flags, hflags, hrun⟩ := mapItems_lists h
  intro heap
  rw [← hflags]
  refine .single (isSingle_everyFlag _) (yields_everyFlag ?_)
  refine yields_method (ht heap) (world.get_map items) (Evaluates.closure _ _ heap) ?_
  refine .step ?_
  simp only [apply]
  exact (hrun heap).bind (.pure _ _)

end Runtime

end TypedRoutes
