import TypedRoutes.Proofs.Runtime.Calculus

/-!
# Functions from outside

What a run yields does not depend on the functions from outside that it does not call: a run that
yields a value although most of them fail yields the same value whatever these would have given.
-/

namespace TypedRoutes.Runtime

/-- What functions from outside give, called by name on a value. -/
abbrev Outside := String → Data → List Data → Except Failure Data

/-- The same surroundings with other functions from outside. -/
def World.calling (world : World) (call : Outside) : World :=
  { world with call := call }

/-- The same surroundings, except that every call of one function from outside fails. -/
def World.refusing (world : World) (refused : String) : World :=
  world.calling fun function owner arguments =>
    if function = refused then .error .typeError else world.call function owner arguments

/-- What the functions give, other functions give as well. -/
def Outside.Within (call other : Outside) : Prop :=
  ∀ function owner arguments result,
    call function owner arguments = .ok result → other function owner arguments = .ok result

/-- A world that refuses a function does nothing that the other does not. -/
theorem World.refusing_within (world : World) (refused : String) :
    Outside.Within (world.refusing refused).call world.call := by
  intro function owner arguments result hcall
  simp only [refusing, calling] at hcall
  split at hcall
  · cases hcall
  · exact hcall

/-- Other functions are called as before. -/
theorem World.call_refusing {world : World} {refused function : String} (hne : function ≠ refused)
    (owner : Data) (arguments : List Data) :
    (world.refusing refused).call function owner arguments = world.call function owner arguments :=
  if_neg hne

/-- What the run yields, the other yields. -/
def Run.Within {α : Type} (run other : Run α) : Prop :=
  ∀ heap value after, run.Yields heap value after → other.Yields heap value after

namespace Run

variable {α β : Type} {heap after : Heap}

/-- Of two runs one after the other, the first yields something. -/
theorem Yields.of_bind {run : Run α} {next : α → Run β} {b : β}
    (h : (run >>= next).Yields heap b after) :
    ∃ a middle, run.Yields heap a middle ∧ (next a).Yields middle b after := by
  have hrun : Run.Yields (run >>= next) heap b after := h
  unfold Run.Yields at hrun ⊢
  simp only [Bind.bind, StateT.bind, ExceptT.bind, ExceptT.mk, Option.bind] at hrun
  cases hfirst : run heap with
  | none =>
    rw [hfirst] at hrun
    cases hrun
  | some outcome =>
    cases outcome with
    | error failure =>
      rw [hfirst] at hrun
      cases hrun
    | ok result =>
      rw [hfirst] at hrun
      exact ⟨result.1, result.2, rfl, hrun⟩

namespace Within

/-- A run is within itself. -/
theorem refl (run : Run α) : run.Within run :=
  fun _ _ _ h => h

/-- Runs that go on within each other. -/
theorem bind {run other : Run α} {next next' : α → Run β} (h : run.Within other)
    (hn : ∀ a, (next a).Within (next' a)) : (run >>= next).Within (other >>= next') := by
  intro heap value after hyields
  obtain ⟨a, middle, hfirst, hsecond⟩ := hyields.of_bind
  exact (h heap a middle hfirst).bind (hn a middle value after hsecond)

/-- Runs that go on alike. -/
theorem map {run other : Run α} (h : run.Within other) (next : α → Run β) :
    (run >>= next).Within (other >>= next) :=
  h.bind fun a => .refl (next a)

/-- A result that stays a result. -/
theorem ofExcept {result result' : Except Failure α}
    (h : ∀ value, result = .ok value → result' = .ok value) :
    (Run.ofExcept result).Within (Run.ofExcept result') := by
  intro heap value after hyields
  cases result with
  | error failure => cases hyields
  | ok given =>
    rw [h given rfl]
    exact hyields

end Within

end Run

/-- All that runs yields the same where more can be called and another number of steps is given. -/
structure CallsWithin (world : World) (call : Outside) (fuel more : Nat) : Prop where
  eval : ∀ env expr, (eval world env expr fuel).Within (eval (world.calling call) env expr more)
  evalCallee : ∀ env callee,
    (evalCallee world env callee fuel).Within (evalCallee (world.calling call) env callee more)
  evalAll : ∀ env exprs,
    (evalAll world env exprs fuel).Within (evalAll (world.calling call) env exprs more)
  evalEntries : ∀ env entries,
    (evalEntries world env entries fuel).Within (evalEntries (world.calling call) env entries more)
  apply : ∀ function this arguments, (apply world function this arguments fuel).Within
    (apply (world.calling call) function this arguments more)
  every : ∀ test items rest position, (every world test items rest position fuel).Within
    (every (world.calling call) test items rest position more)
  mapItems : ∀ image items rest position, (mapItems world image items rest position fuel).Within
    (mapItems (world.calling call) image items rest position more)
  filter : ∀ test items rest position, (filter world test items rest position fuel).Within
    (filter (world.calling call) test items rest position more)
  exec : ∀ env statements,
    (exec world env statements fuel).Within (exec (world.calling call) env statements more)

namespace CallsWithin

variable {world : World} {call : Outside} {fuel more : Nat} (ih : CallsWithin world call fuel more)
include ih

/-- One step of the evaluation of an expression. -/
theorem eval_succ (env : Env) (expr : Expr) : (Runtime.eval world env expr (fuel + 1)).Within
    (Runtime.eval (world.calling call) env expr (more + 1)) := by
  cases expr with
  | property target name =>
    simp only [Runtime.eval]
    exact (ih.eval env target).map _
  | element target index =>
    simp only [Runtime.eval]
    exact (ih.eval env target).bind fun _ => (ih.eval env index).map _
  | call callee types arguments span =>
    simp only [Runtime.eval]
    exact (ih.evalCallee env callee).bind fun _ => (ih.evalAll env arguments).bind fun _ =>
      ih.apply _ _ _
  | object entries =>
    simp only [Runtime.eval]
    exact (ih.evalEntries env entries).map _
  | array elements =>
    simp only [Runtime.eval]
    exact (ih.evalAll env elements).map _
  | unary op operand =>
    cases op <;> (simp only [Runtime.eval]; exact (ih.eval env operand).map _)
  | binary op left right =>
    have hleft := ih.eval env left
    have hright := ih.eval env right
    cases op with
    | and =>
      simp only [Runtime.eval]
      refine hleft.bind fun value => ?_
      split
      · exact hright
      · exact .refl _
    | or =>
      simp only [Runtime.eval]
      refine hleft.bind fun value => ?_
      split
      · exact .refl _
      · exact hright
    | _ =>
      simp only [Runtime.eval]
      exact hleft.bind fun _ => hright.map _
  | conditional condition whenTrue whenFalse =>
    simp only [Runtime.eval]
    refine (ih.eval env condition).bind fun value => ?_
    split
    · exact ih.eval env whenTrue
    · exact ih.eval env whenFalse
  | _ =>
    simp only [Runtime.eval]
    exact .refl _

/-- One step of the evaluation of a function that is called. -/
theorem evalCallee_succ (env : Env) (callee : Expr) :
    (Runtime.evalCallee world env callee (fuel + 1)).Within
      (Runtime.evalCallee (world.calling call) env callee (more + 1)) := by
  cases callee with
  | element target index =>
    simp only [Runtime.evalCallee]
    exact (ih.eval env target).bind fun _ => (ih.eval env index).map _
  | _ =>
    simp only [Runtime.evalCallee]
    exact (ih.eval env _).map _

/-- One step of the evaluation of arguments. -/
theorem evalAll_succ (env : Env) (exprs : List Expr) :
    (Runtime.evalAll world env exprs (fuel + 1)).Within
      (Runtime.evalAll (world.calling call) env exprs (more + 1)) := by
  cases exprs with
  | nil =>
    simp only [Runtime.evalAll]
    exact .refl _
  | cons expr rest =>
    simp only [Runtime.evalAll]
    exact (ih.eval env expr).bind fun _ => (ih.evalAll env rest).map _

/-- One step of the evaluation of entries. -/
theorem evalEntries_succ (env : Env) (entries : List Entry) :
    (Runtime.evalEntries world env entries (fuel + 1)).Within
      (Runtime.evalEntries (world.calling call) env entries (more + 1)) := by
  cases entries with
  | nil =>
    simp only [Runtime.evalEntries]
    exact .refl _
  | cons entry rest =>
    obtain ⟨key, expr⟩ := entry
    simp only [Runtime.evalEntries]
    exact (ih.eval env expr).bind fun _ => (ih.evalEntries env rest).map _

/-- One step of a test of all items. -/
theorem every_succ (test : Value) (items rest : List Data) (position : Nat) :
    (Runtime.every world test items rest position (fuel + 1)).Within
      (Runtime.every (world.calling call) test items rest position (more + 1)) := by
  cases rest with
  | nil =>
    simp only [Runtime.every]
    exact .refl _
  | cons item rest =>
    simp only [Runtime.every]
    refine (ih.apply _ _ _).bind fun result => ?_
    split
    · exact ih.every test items rest (position + 1)
    · exact .refl _

/-- One step of a map over all items. -/
theorem mapItems_succ (image : Value) (items rest : List Data) (position : Nat) :
    (Runtime.mapItems world image items rest position (fuel + 1)).Within
      (Runtime.mapItems (world.calling call) image items rest position (more + 1)) := by
  cases rest with
  | nil =>
    simp only [Runtime.mapItems]
    exact .refl _
  | cons item rest =>
    simp only [Runtime.mapItems]
    exact (ih.apply _ _ _).bind fun _ => Run.Within.bind (.refl _) fun _ =>
      (ih.mapItems image items rest (position + 1)).map _

/-- One step of a filter of all items. -/
theorem filter_succ (test : Value) (items rest : List Data) (position : Nat) :
    (Runtime.filter world test items rest position (fuel + 1)).Within
      (Runtime.filter (world.calling call) test items rest position (more + 1)) := by
  cases rest with
  | nil =>
    simp only [Runtime.filter]
    exact .refl _
  | cons item rest =>
    simp only [Runtime.filter]
    exact (ih.apply _ _ _).bind fun _ => (ih.filter test items rest (position + 1)).map _

/-- The one place where a function from outside is called. -/
theorem apply_succ (hcalls : Outside.Within world.call call) (function this : Value)
    (arguments : List Value) : (Runtime.apply world function this arguments (fuel + 1)).Within
      (Runtime.apply (world.calling call) function this arguments (more + 1)) := by
  cases function with
  | closure params body env =>
    cases body with
    | concise value =>
      simp only [Runtime.apply]
      exact ih.eval _ value
    | block statements =>
      simp only [Runtime.apply]
      exact (ih.exec _ statements).map _
  | data callable =>
    cases callable with
    | function callable =>
      cases callable with
      | host name =>
        simp only [Runtime.apply]
        refine Run.Within.bind (.refl _) fun owner => ?_
        split
        · exact (Run.Within.ofExcept (hcalls name owner _)).map _
        · exact .refl _
      | native function =>
        cases function with
        | every =>
          simp only [Runtime.apply]
          split
          · exact (ih.every _ _ _ _).map _
          · exact .refl _
        | map =>
          simp only [Runtime.apply]
          split
          · exact (ih.mapItems _ _ _ _).map _
          · exact .refl _
        | filter =>
          simp only [Runtime.apply]
          split
          · exact (ih.filter _ _ _ _).map _
          · exact .refl _
        | _ =>
          simp only [Runtime.apply]
          exact .refl _
    | _ =>
      simp only [Runtime.apply]
      exact .refl _
  | _ =>
    simp only [Runtime.apply]
    exact .refl _

/-- One step of the execution of statements. -/
theorem exec_succ (env : Env) (statements : List Stmt) :
    (Runtime.exec world env statements (fuel + 1)).Within
      (Runtime.exec (world.calling call) env statements (more + 1)) := by
  simp only [Runtime.exec]
  generalize leadingFunctions statements = parts
  obtain ⟨functions, rest⟩ := parts
  cases functions with
  | cons function more => exact ih.exec _ rest
  | nil =>
    cases rest with
    | nil => exact .refl _
    | cons stmt rest =>
      cases stmt with
      | const name value => exact (ih.eval env value).bind fun _ => ih.exec _ rest
      | branch condition consequent alternative =>
        refine (ih.eval env condition).bind fun value => (ih.exec env _).bind fun result => ?_
        cases result with
        | some result => exact .refl _
        | none => exact ih.exec env rest
      | returns value => exact (ih.eval env value).map _
      | throws value => exact (ih.eval env value).map _
      | expression value => exact (ih.eval env value).bind fun _ => ih.exec env rest

end CallsWithin

/-- What is yielded where some calls fail is yielded where they do not, also with more steps, by
induction on the number of steps. -/
theorem callsWithin {world : World} {call : Outside} (hcalls : Outside.Within world.call call)
    {fuel more : Nat} (hle : fuel ≤ more) : CallsWithin world call fuel more := by
  induction fuel generalizing more with
  | zero =>
    constructor <;> intros <;> intro _ _ _ hyields
    · rw [eval_zero] at hyields; cases hyields
    · rw [evalCallee_zero] at hyields; cases hyields
    · rw [evalAll_zero] at hyields; cases hyields
    · rw [evalEntries_zero] at hyields; cases hyields
    · rw [apply_zero] at hyields; cases hyields
    · rw [every] at hyields; cases hyields
    · rw [mapItems] at hyields; cases hyields
    · rw [filter] at hyields; cases hyields
    · rw [exec_zero] at hyields; cases hyields
  | succ fuel ih =>
    obtain ⟨more, rfl⟩ := Nat.exists_eq_add_of_le' (Nat.le_trans (Nat.le_add_left 1 fuel) hle)
    have ih := ih (Nat.le_of_succ_le_succ hle)
    exact ⟨ih.eval_succ, ih.evalCallee_succ, ih.evalAll_succ, ih.evalEntries_succ,
      ih.apply_succ hcalls, ih.every_succ, ih.mapItems_succ, ih.filter_succ, ih.exec_succ⟩

/-- Calls in a world that refuses a function are calls in the world. -/
theorem World.callsWithin_refusing (world : World) (refused : String) (fuel : Nat) :
    CallsWithin (world.refusing refused) world.call fuel fuel :=
  callsWithin (world.refusing_within refused) (Nat.le_refl fuel)

/-- More steps change nothing about what is yielded. -/
theorem World.moreSteps (world : World) {fuel more : Nat} (hle : fuel ≤ more) :
    CallsWithin world world.call fuel more :=
  callsWithin (fun _ _ _ _ h => h) hle

/-- What is yielded with fewer calls is yielded with more. -/
theorem Process.Yields.within {α : Type} {process other : Process α} {heap after : Heap}
    {result : α} (h : process.Yields heap result after)
    (hwithin : ∀ fuel, (process fuel).Within (other fuel)) : other.Yields heap result after := by
  obtain ⟨enough, hyields⟩ := h
  exact ⟨enough, fun fuel hfuel => hwithin fuel heap result after (hyields fuel hfuel)⟩

end TypedRoutes.Runtime
