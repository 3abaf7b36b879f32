import TypedRoutes.Proofs.Runtime.Calculus

/-!
# Calls that never end

A closure whose body calls it again on the same argument. No number of steps is enough for the call,
by induction on the number.
-/

namespace TypedRoutes.Runtime

/-- Whatever the run ends with has the property. -/
def Run.EndsIn {α : Type} (run : Run α) (p : Heap → Except Failure (α × Heap) → Prop) : Prop :=
  ∀ heap result, (run heap).run = some result → p heap result

/-- The run can only end with a value and without an effect. -/
def Run.OnlyGives {α : Type} (run : Run α) (value : α) : Prop :=
  run.EndsIn fun heap result => result = .ok (value, heap)

/-- The run does not end. -/
def Run.Endless {α : Type} (run : Run α) : Prop :=
  run.EndsIn fun _ _ => False

namespace Run

variable {α β : Type} {run : Run α} {next : α → Run β} {a : α}
  {p : Heap → Except Failure (β × Heap) → Prop}

theorem EndsIn.stuck {p : Heap → Except Failure (α × Heap) → Prop} :
    (Run.stuck : Run α).EndsIn p := by
  intro heap result h
  cases h

theorem OnlyGives.pure (a : α) : (Pure.pure a : Run α).OnlyGives a := by
  intro heap result h
  exact (Option.some.inj h).symm

/-- A run that can only end in one way, followed by another one. -/
theorem OnlyGives.bind (h : run.OnlyGives a) (hn : (next a).EndsIn p) :
    (run >>= next).EndsIn p := by
  intro heap result hresult
  cases hrun : (run heap).run with
  | none =>
    simp only [Bind.bind, StateT.bind, ExceptT.bind, ExceptT.mk, ExceptT.run] at hrun hresult
    rw [hrun] at hresult
    cases hresult
  | some first =>
    have hfirst := h heap first hrun
    subst hfirst
    have hgoes : ((run >>= next) heap).run = (next a heap).run := by
      simp only [Bind.bind, StateT.bind, ExceptT.bind, ExceptT.mk, ExceptT.run] at hrun ⊢
      rw [hrun]
      rfl
    exact hn heap result (hgoes.symm.trans hresult)

/-- Nothing follows a run that does not end. -/
theorem Endless.bind (h : run.Endless) : (run >>= next).Endless := by
  intro heap result hresult
  cases hrun : (run heap).run with
  | none =>
    simp only [Bind.bind, StateT.bind, ExceptT.bind, ExceptT.mk, ExceptT.run] at hrun hresult
    rw [hrun] at hresult
    cases hresult
  | some first => exact (h heap first hrun).elim

end Run

/-- A process that ends with no number of steps has no value. -/
theorem Process.not_yields {α : Type} {process : Process α} (h : ∀ fuel, (process fuel).Endless)
    {heap after : Heap} {value : α} : ¬ process.Yields heap value after := by
  rintro ⟨enough, hyields⟩
  exact h enough heap _ (hyields enough (Nat.le_refl enough))

variable {world : World} {env : Env} {name param : String} {value : Value}

theorem eval_identifier_onlyGives (h : env.lookup? name = some value) (fuel : Nat) :
    (eval world env (.identifier name) fuel).OnlyGives value := by
  cases fuel with
  | zero =>
    rw [eval_zero]
    exact .stuck
  | succ fuel =>
    simp only [eval, readName, h]
    exact .pure value

theorem evalCallee_identifier_onlyGives (h : env.lookup? name = some value) (fuel : Nat) :
    (evalCallee world env (.identifier name) fuel).OnlyGives (value, .data .undefined) := by
  cases fuel with
  | zero =>
    rw [evalCallee_zero]
    exact .stuck
  | succ fuel =>
    simp only [evalCallee]
    exact (eval_identifier_onlyGives h fuel).bind (Run.OnlyGives.pure _)

theorem evalAll_nil_onlyGives (fuel : Nat) : (evalAll world env [] fuel).OnlyGives [] := by
  cases fuel with
  | zero =>
    rw [evalAll_zero]
    exact .stuck
  | succ fuel =>
    simp only [evalAll]
    exact .pure []

theorem evalAll_identifier_onlyGives (h : env.lookup? name = some value) (fuel : Nat) :
    (evalAll world env [.identifier name] fuel).OnlyGives [value] := by
  cases fuel with
  | zero =>
    rw [evalAll_zero]
    exact .stuck
  | succ fuel =>
    simp only [evalAll]
    exact (eval_identifier_onlyGives h fuel).bind ((evalAll_nil_onlyGives fuel).bind
      (Run.OnlyGives.pure _))

/-- Calling a closure that calls itself on its own argument does not end. -/
theorem selfCall_endless {base : Env}
    (hname : base.lookup? name = some (.closure [param]
      (.concise (.invoke (.identifier name) [.identifier param])) base)) (hne : param ≠ name)
    (fuel : Nat) : ∀ env : Env, env.lookup? name = base.lookup? name →
      env.lookup? param = some value →
      (eval world env (.invoke (.identifier name) [.identifier param]) fuel).Endless := by
  induction fuel using Nat.strongRecOn with
  | _ fuel ih =>
    intro env hcallee hargument
    cases fuel with
    | zero =>
      rw [eval_zero]
      exact .stuck
    | succ fuel =>
      simp only [Expr.invoke, eval]
      refine (evalCallee_identifier_onlyGives (hcallee.trans hname) fuel).bind
        ((evalAll_identifier_onlyGives hargument fuel).bind ?_)
      cases fuel with
      | zero =>
        simp only [apply_zero]
        exact .stuck
      | succ fuel =>
        simp only [apply]
        refine ih fuel (by omega) _ ?_ ?_
        · rw [Env.bindAll, Env.bindAll, Env.lookup?, if_neg hne]
        · rw [Env.bindAll, Env.bindAll, Env.lookup?, if_pos rfl]

end TypedRoutes.Runtime
