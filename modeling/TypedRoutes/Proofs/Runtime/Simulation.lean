import TypedRoutes.Proofs.Runtime.Calculus
import TypedRoutes.Proofs.Runtime.Renaming
import Mathlib.Data.List.GetD

/-!
# Simulation

A program and its renaming run in step: given the same number of steps, both end with values that
are renamed, both fail in the same way, or neither has a result. By induction on the number of
steps; what one step does with renamed values does not depend on the names.
-/

namespace TypedRoutes.Runtime

/-- What two runs came to: nothing, the same failure, or results in heaps that have grown alike. -/
inductive Linkage.Outcomes (link : Linkage) {α : Type} (R : α → α → Prop) :
    Option (Except Failure (α × Heap)) → Option (Except Failure (α × Heap)) → Prop where
  | stuck : Outcomes link R none none
  | failed (failure : Failure) :
      Outcomes link R (some (.error failure)) (some (.error failure))
  | ended {a b : α} (h : R a b) (grown : Heap) :
      Outcomes link R (some (.ok (a, link.lead ++ grown))) (some (.ok (b, link.lead' ++ grown)))

/-- The runs keep in step wherever their heaps have grown alike. -/
def Linkage.InStep (link : Linkage) {α : Type} (R : α → α → Prop) (run run' : Run α) : Prop :=
  ∀ grown : Heap, link.Outcomes R (run (link.lead ++ grown)) (run' (link.lead' ++ grown))

variable {link : Linkage} {α β : Type} {R : α → α → Prop} {S : β → β → Prop}

namespace Linkage.InStep

/-- Related values are given in step. -/
theorem pure {a b : α} (h : R a b) : link.InStep R (Pure.pure a) (Pure.pure b) :=
  fun grown => .ended h grown

theorem stuck : link.InStep R Run.stuck Run.stuck :=
  fun _ => .stuck

/-- The same failure is in step with itself. -/
theorem throws (failure : Failure) : link.InStep R (throw failure) (throw failure) :=
  fun _ => .failed failure

/-- The same result is in step with itself. -/
theorem ofExcept (result : Except Failure α) :
    link.InStep Eq (Run.ofExcept result) (Run.ofExcept result) := by
  cases result with
  | ok value => exact .pure rfl
  | error failure => exact .throws failure

/-- Runs one after the other. -/
theorem bind {run run' : Run α} {next next' : α → Run β} (h : link.InStep R run run')
    (hn : ∀ a b, R a b → link.InStep S (next a) (next' b)) :
    link.InStep S (run >>= next) (run' >>= next') := by
  intro grown
  have hfirst := h grown
  simp only [Bind.bind, StateT.bind, ExceptT.bind, ExceptT.mk, Option.bind]
  generalize run (link.lead ++ grown) = outcome at hfirst ⊢
  generalize run' (link.lead' ++ grown) = outcome' at hfirst ⊢
  cases hfirst with
  | stuck => exact .stuck
  | failed failure => exact .failed failure
  | ended hvalues grown => exact hn _ _ hvalues grown

/-- What is made of values that are in step is in step. -/
theorem map {run run' : Run α} {f f' : α → β} (h : link.InStep R run run')
    (hf : ∀ a b, R a b → S (f a) (f' b)) :
    link.InStep S (run >>= fun a => Pure.pure (f a)) (run' >>= fun a => Pure.pure (f' a)) :=
  h.bind fun a b hvalues => .pure (hf a b hvalues)

end Linkage.InStep

/-! ## What one step does -/

section

variable {world : World} {value value' other other' : Value} {values values' : List Value}

/-- Renamed values are data together, and then the same data. -/
theorem toData_inStep (h : Value.Renames link value value') :
    link.InStep Eq value.toData value'.toData := by
  cases h with
  | data value => exact .pure rfl
  | _ => exact .stuck

/-- A property of renamed values. -/
theorem readProperty_inStep (h : Value.Renames link value value') (name : String) :
    link.InStep (Value.Renames link) (readProperty world value name)
      (readProperty world value' name) := by
  cases h with
  | data value =>
    simp only [readProperty]
    split
    · exact .pure (.data _)
    · exact .throws _
  | cell position =>
    simp only [readProperty]
    split
    · exact .pure (.data _)
    · exact .stuck
  | closure henv hbody => exact .stuck
  | record keys each => exact .stuck

/-- An element of renamed values. -/
theorem readElement_inStep (h : Value.Renames link value value')
    (hi : Value.Renames link other other') :
    link.InStep (Value.Renames link) (readElement world value other)
      (readElement world value' other') := by
  cases hi with
  | data index =>
    cases index with
    | string key => exact readProperty_inStep h key
    | number position =>
      cases h with
      | data target =>
        cases target with
        | array items => exact .pure (.data _)
        | _ =>
          simp only [readElement]
          exact readProperty_inStep (.data _) _
      | cell address =>
        simp only [readElement]
        exact readProperty_inStep (.cell address) _
      | closure henv hbody => exact .stuck
      | record keys each => exact .stuck
    | _ => exact .stuck
  | _ => exact .stuck

/-- Renamed values are compared alike. -/
theorem strictEquals_inStep (h : Value.Renames link value value')
    (ho : Value.Renames link other other') :
    link.InStep Eq (strictEquals value other) (strictEquals value' other') := by
  cases h with
  | data value =>
    cases ho with
    | data other =>
      simp only [strictEquals]
      split
      · exact .pure rfl
      · exact .stuck
    | _ => exact .stuck
  | _ => exact .stuck

/-- Sums of renamed values. -/
theorem plus_inStep (h : Value.Renames link value value') (ho : Value.Renames link other other') :
    link.InStep (Value.Renames link) (plus world value other) (plus world value' other') := by
  cases h with
  | data value =>
    cases ho with
    | data other =>
      simp only [plus]
      split
      · exact .pure (.data _)
      · split
        · exact .pure (.data _)
        · exact .stuck
      · split
        · exact .pure (.data _)
        · exact .stuck
      · exact .stuck
    | _ => cases value <;> exact .stuck
  | _ => exact .stuck

/-- Renamed values are instances alike. -/
theorem isInstance_inStep (h : Value.Renames link value value')
    (ho : Value.Renames link other other') :
    link.InStep Eq (isInstance value other) (isInstance value' other') := by
  cases h with
  | data value =>
    cases ho with
    | data other =>
      simp only [isInstance]
      split
      · exact .pure rfl
      · exact .pure rfl
      · exact .stuck
    | _ => cases value <;> exact .stuck
  | _ => exact .stuck

/-- Arrays of renamed values. -/
theorem makeArray_inStep (h : List.Forall₂ (Value.Renames link) values values') :
    link.InStep (Value.Renames link) (makeArray values) (makeArray values') := by
  cases h with
  | nil =>
    intro grown
    change link.Outcomes _
      (some (.ok (Value.cell (link.lead ++ grown).length, link.lead ++ grown ++ [[]])))
      (some (.ok (Value.cell (link.lead' ++ grown).length, link.lead' ++ grown ++ [[]])))
    simp only [List.length_append, List.append_assoc]
    exact .ended (.cell grown.length) (grown ++ [[]])
  | cons hvalue hrest =>
    simp only [makeArray, Value.Renames.allData?_eq (.cons hvalue hrest)]
    split
    · exact .pure (.data _)
    · exact .stuck

/-- A change behind the part that differs is the same change. -/
theorem modify_append_right (lead grown : Heap) (position : Nat) (f : List Data → List Data) :
    (lead ++ grown).modify (lead.length + position) f = lead ++ grown.modify position f := by
  induction lead with
  | nil => simp
  | cons items rest ih =>
    rw [List.length_cons, Nat.add_right_comm, List.cons_append, List.modify_succ_cons, ih,
      List.cons_append]

/-- What stands behind the part that differs is found at the shifted place. -/
theorem getD_append_right (lead grown : Heap) (position : Nat) :
    (lead ++ grown).getD (lead.length + position) [] = grown.getD position [] := by
  rw [List.getD_append_right _ _ _ _ (Nat.le_add_right _ _), Nat.add_sub_cancel_left]

/-- All functions but the one that makes an array grow give data. -/
theorem callNative_gives_data {function : Native} (hpush : function ≠ .push) (this : Value)
    (arguments : List Value) :
    link.InStep (Value.Renames link) (callNative world function this arguments)
      (callNative world function this arguments) := by
  unfold callNative
  split
  case h_11 => exact absurd rfl hpush
  case h_8 => exact (Linkage.InStep.ofExcept _).map fun _ _ heq => heq ▸ .data _
  case h_5 | h_6 | h_7 | h_10 =>
    split
    · exact .pure (.data _)
    · exact .stuck
  case h_12 => exact .stuck
  all_goals exact .pure (.data _)

/-- Such functions take one argument at most, and it is data. -/
theorem callNative_stuck (function : Native) (this : Value) {arguments : List Value}
    (hne : arguments ≠ []) (h : ∀ item, arguments ≠ [.data item]) :
    callNative world function this arguments = Run.stuck := by
  unfold callNative
  split <;> simp_all

/-- What is no data is no argument of such functions, and they are not called on it. -/
theorem callNative_eq {function : Native} (hpush : function ≠ .push)
    (h : Value.Renames link value value') (hs : List.Forall₂ (Value.Renames link) values values') :
    callNative world function value values = callNative world function value' values' := by
  cases hs with
  | nil => cases h <;> first | rfl | cases function <;> rfl
  | cons hfirst hrest =>
    cases hrest with
    | cons _ _ => rw [callNative_stuck _ _ (by simp) (by simp),
        callNative_stuck _ _ (by simp) (by simp)]
    | nil =>
      cases hfirst with
      | data item =>
        cases h with
        | data this => rfl
        | _ => cases function <;> first | exact absurd rfl hpush | rfl | cases item <;> rfl
      | _ => rw [callNative_stuck _ _ (by simp) (by simp), callNative_stuck _ _ (by simp) (by simp)]

/-- A value is pushed to lists that correspond. -/
theorem push_inStep (h : Value.Renames link value value')
    (hs : List.Forall₂ (Value.Renames link) values values') :
    link.InStep (Value.Renames link) (callNative world .push value values)
      (callNative world .push value' values') := by
  cases hs with
  | nil => cases h <;> exact .stuck
  | cons hfirst hrest =>
    cases hrest with
    | cons _ _ =>
      rw [callNative_stuck _ _ (by simp) (by simp), callNative_stuck _ _ (by simp) (by simp)]
      exact .stuck
    | nil =>
      cases hfirst with
      | data item =>
        cases h with
        | cell position =>
          intro grown
          change link.Outcomes _
            (some (.ok (Value.data (.number (Float.ofNat (((link.lead ++ grown).getD
              (link.lead.length + position) []).length + 1))), (link.lead ++ grown).modify
                (link.lead.length + position) (· ++ [item]))))
            (some (.ok (Value.data (.number (Float.ofNat (((link.lead' ++ grown).getD
              (link.lead'.length + position) []).length + 1))), (link.lead' ++ grown).modify
                (link.lead'.length + position) (· ++ [item]))))
          simp only [modify_append_right, getD_append_right]
          exact .ended (.data _) _
        | _ => exact .stuck
      | _ =>
        rw [callNative_stuck _ _ (by simp) (by simp), callNative_stuck _ _ (by simp) (by simp)]
        exact .stuck

/-- Each native function keeps the relation. -/
theorem callNative_inStep (function : Native) (h : Value.Renames link value value')
    (hs : List.Forall₂ (Value.Renames link) values values') :
    link.InStep (Value.Renames link) (callNative world function value values)
      (callNative world function value' values') := by
  by_cases hpush : function = .push
  · rw [hpush]
    exact push_inStep h hs
  · rw [callNative_eq hpush h hs]
    exact callNative_gives_data hpush value' values'

/-- A function that runs through an array is called on it, with one argument. -/
def traversal (run : List Data → Value → Run Value) : Value → List Value → Run Value
  | .data (.array items), [test] => run items test
  | _, _ => Run.stuck

/-- The native functions that go through a list keep the relation if their loops do. -/
theorem traversal_inStep {run run' : List Data → Value → Run Value}
    (h : ∀ items test test', Value.Renames link test test' →
      link.InStep (Value.Renames link) (run items test) (run' items test'))
    (hthis : Value.Renames link value value')
    (hs : List.Forall₂ (Value.Renames link) values values') :
    link.InStep (Value.Renames link) (traversal run value values)
      (traversal run' value' values') := by
  cases hthis with
  | data this =>
    cases this with
    | array items =>
      cases hs with
      | nil => exact .stuck
      | cons hfirst hrest =>
        cases hrest with
        | nil => exact h items _ _ hfirst
        | cons _ _ => exact .stuck
    | _ => exact .stuck
  | _ => exact .stuck

end

/-! ## Any number of steps -/

variable (link) in
/-- Whatever renamed programs do with so many steps, they do in step. -/
structure Simulates (world : World) (fuel : Nat) : Prop where
  eval : ∀ {naming env env' expr expr'}, Env.Renames link naming env env' →
    Expr.Renames naming expr expr' →
    link.InStep (Value.Renames link) (eval world env expr fuel) (eval world env' expr' fuel)
  evalCallee : ∀ {naming env env' expr expr'}, Env.Renames link naming env env' →
    Expr.Renames naming expr expr' →
    link.InStep (fun a b => Value.Renames link a.1 b.1 ∧ Value.Renames link a.2 b.2)
      (evalCallee world env expr fuel) (evalCallee world env' expr' fuel)
  evalAll : ∀ {naming env env' exprs exprs'}, Env.Renames link naming env env' →
    List.Forall₂ (Expr.Renames naming) exprs exprs' →
    link.InStep (List.Forall₂ (Value.Renames link)) (evalAll world env exprs fuel)
      (evalAll world env' exprs' fuel)
  evalEntries : ∀ {naming env env' entries entries'}, Env.Renames link naming env env' →
    List.Forall₂ (fun a b => a.key = b.key ∧ Expr.Renames naming a.value b.value) entries entries' →
    link.InStep (List.Forall₂ fun a b => a.1 = b.1 ∧ Value.Renames link a.2 b.2)
      (evalEntries world env entries fuel) (evalEntries world env' entries' fuel)
  apply : ∀ {function function' this this' arguments arguments'},
    Value.Renames link function function' → Value.Renames link this this' →
    List.Forall₂ (Value.Renames link) arguments arguments' →
    link.InStep (Value.Renames link) (apply world function this arguments fuel)
      (apply world function' this' arguments' fuel)
  every : ∀ {test test'} (array rest : List Data) (position : Nat),
    Value.Renames link test test' →
    link.InStep Eq (every world test array rest position fuel)
      (every world test' array rest position fuel)
  mapItems : ∀ {image image'} (array rest : List Data) (position : Nat),
    Value.Renames link image image' →
    link.InStep Eq (mapItems world image array rest position fuel)
      (mapItems world image' array rest position fuel)
  filter : ∀ {test test'} (array rest : List Data) (position : Nat),
    Value.Renames link test test' →
    link.InStep Eq (filter world test array rest position fuel)
      (filter world test' array rest position fuel)
  exec : ∀ {naming env env'} (statements : List Stmt), Env.Renames link naming env env' →
    naming.Keeps (Stmt.identifiersOf statements) →
    link.InStep (Option.Rel (Value.Renames link)) (exec world env statements fuel)
      (exec world env' statements fuel)

section

variable {world : World} {fuel : Nat} {naming : Naming} {env env' : Env} {expr expr' : Expr}

/-- A name is read where its counterpart is. -/
theorem readName_inStep (hlinked : link.Linked) (henv : Env.Renames link naming env env')
    {a b : String} (hname : naming a b) :
    link.InStep (Value.Renames link) (readName world env a) (readName world env' b) := by
  simp only [readName]
  rcases henv.lookup? hlinked hname with ⟨rfl, ha, hb⟩ | ⟨value, value', ha, hb, hvalue⟩
  · simp only [ha, hb]
    split
    · exact .pure (.data _)
    · exact .throws _
  · simp only [ha, hb]
    exact .pure hvalue

/-- What is kept of statements is kept of the functions in front and of the rest. -/
theorem leadingFunctions_keeps {statements : List Stmt}
    (h : naming.Keeps (Stmt.identifiersOf statements)) :
    (∀ function ∈ (leadingFunctions statements).1, naming.Keeps function.body.identifiers) ∧
      naming.Keeps (Stmt.identifiersOf (leadingFunctions statements).2) := by
  induction statements with
  | nil => exact ⟨fun _ hmem => absurd hmem List.not_mem_nil, h⟩
  | cons stmt rest ih =>
    rw [leadingFunctions]
    cases hstmt : Declared.ofStmt? stmt with
    | none => exact ⟨fun _ hmem => absurd hmem List.not_mem_nil, h⟩
    | some function =>
      rw [Stmt.identifiersOf, Naming.keeps_append] at h
      obtain ⟨hfirst, hrest⟩ := h
      refine ⟨fun other hother => ?_, (ih hrest).2⟩
      rcases List.mem_cons.mp hother with rfl | hother
      · unfold Declared.ofStmt? at hstmt
        split at hstmt
        · cases hstmt
          exact hfirst
        · cases hstmt
      · exact (ih hrest).1 other hother

namespace Simulates

variable (ih : Simulates link world fuel)
include ih

/-- One step of a binary operator. -/
theorem eval_binary (henv : Env.Renames link naming env env') (op : BinaryOp)
    {left left' right right' : Expr} (hl : Expr.Renames naming left left')
    (hr : Expr.Renames naming right right') :
    link.InStep (Value.Renames link) (Runtime.eval world env (.binary op left right) (fuel + 1))
      (Runtime.eval world env' (.binary op left' right') (fuel + 1)) := by
  have hleft := ih.eval henv hl
  have hright := ih.eval henv hr
  cases op with
  | and =>
    simp only [Runtime.eval]
    refine hleft.bind fun value value' hvalue => ?_
    rw [hvalue.truthy_eq]
    split
    · exact hright
    · exact .pure hvalue
  | or =>
    simp only [Runtime.eval]
    refine hleft.bind fun value value' hvalue => ?_
    rw [hvalue.truthy_eq]
    split
    · exact .pure hvalue
    · exact hright
  | strictEqual =>
    simp only [Runtime.eval]
    refine hleft.bind fun _ _ hvalue => hright.bind fun _ _ hother => ?_
    exact (strictEquals_inStep hvalue hother).map fun _ _ heq => heq ▸ .data _
  | strictNotEqual =>
    simp only [Runtime.eval]
    refine hleft.bind fun _ _ hvalue => hright.bind fun _ _ hother => ?_
    exact (strictEquals_inStep hvalue hother).map fun _ _ heq => heq ▸ .data _
  | plus =>
    simp only [Runtime.eval]
    exact hleft.bind fun _ _ hvalue => hright.bind fun _ _ hother => plus_inStep hvalue hother
  | instanceOf =>
    simp only [Runtime.eval]
    refine hleft.bind fun _ _ hvalue => hright.bind fun _ _ hother => ?_
    exact (isInstance_inStep hvalue hother).map fun _ _ heq => heq ▸ .data _

/-- One step of the evaluation of renamed expressions. -/
theorem eval_succ (hlinked : link.Linked) (henv : Env.Renames link naming env env')
    (h : Expr.Renames naming expr expr') :
    link.InStep (Value.Renames link) (Runtime.eval world env expr (fuel + 1))
      (Runtime.eval world env' expr' (fuel + 1)) := by
  cases h with
  | identifier h =>
    simp only [Runtime.eval]
    exact readName_inStep hlinked henv h
  | property h name =>
    simp only [Runtime.eval]
    exact (ih.eval henv h).bind fun _ _ hvalue => readProperty_inStep hvalue name
  | element h hi =>
    simp only [Runtime.eval]
    exact (ih.eval henv h).bind fun _ _ hvalue =>
      (ih.eval henv hi).bind fun _ _ hindex => readElement_inStep hvalue hindex
  | call h length each =>
    simp only [Runtime.eval]
    refine (ih.evalCallee henv h).bind fun callee callee' hcallee => ?_
    refine (ih.evalAll henv (List.forall₂_iff_zip.mpr ⟨length, each⟩)).bind fun _ _ hvalues => ?_
    exact ih.apply hcallee.1 hcallee.2 hvalues
  | string value =>
    simp only [Runtime.eval]
    exact .pure (.data _)
  | number value =>
    simp only [Runtime.eval]
    exact .pure (.data _)
  | boolean value =>
    simp only [Runtime.eval]
    exact .pure (.data _)
  | null =>
    simp only [Runtime.eval]
    exact .pure (.data _)
  | object keys each =>
    simp only [Runtime.eval]
    exact (ih.evalEntries henv (Entry.renames_all keys each)).map fun _ _ hmembers =>
      .makeObject hmembers
  | array length each =>
    simp only [Runtime.eval]
    exact (ih.evalAll henv (List.forall₂_iff_zip.mpr ⟨length, each⟩)).bind fun _ _ hvalues =>
      makeArray_inStep hvalues
  | arrow h =>
    simp only [Runtime.eval]
    exact .pure (.closure henv h)
  | unary op h =>
    cases op with
    | not =>
      simp only [Runtime.eval]
      exact (ih.eval henv h).map fun _ _ hvalue => hvalue.truthy_eq ▸ .data _
    | typeOf =>
      simp only [Runtime.eval]
      exact (ih.eval henv h).map fun _ _ hvalue => hvalue.typeName_eq ▸ .data _
  | binary op hl hr => exact ih.eval_binary henv op hl hr
  | conditional h ht hf =>
    simp only [Runtime.eval]
    refine (ih.eval henv h).bind fun value value' hvalue => ?_
    rw [hvalue.truthy_eq]
    split
    · exact ih.eval henv ht
    · exact ih.eval henv hf

/-- One step of the evaluation of renamed functions that are called. -/
theorem evalCallee_succ (henv : Env.Renames link naming env env')
    (h : Expr.Renames naming expr expr') :
    link.InStep (fun a b => Value.Renames link a.1 b.1 ∧ Value.Renames link a.2 b.2)
      (Runtime.evalCallee world env expr (fuel + 1))
      (Runtime.evalCallee world env' expr' (fuel + 1)) := by
  cases h with
  | property h name =>
    simp only [Runtime.evalCallee]
    exact (ih.eval henv h).bind fun _ _ hvalue =>
      (readProperty_inStep hvalue name).map fun _ _ hfunction => ⟨hfunction, hvalue⟩
  | element h hi =>
    simp only [Runtime.evalCallee]
    exact (ih.eval henv h).bind fun _ _ hvalue => (ih.eval henv hi).bind fun _ _ hindex =>
      (readElement_inStep hvalue hindex).map fun _ _ hfunction => ⟨hfunction, hvalue⟩
  | _ =>
    simp only [Runtime.evalCallee]
    refine (ih.eval henv ?_).map fun _ _ hfunction => ⟨hfunction, .data _⟩
    constructor <;> assumption

/-- One step of the evaluation of renamed arguments. -/
theorem evalAll_succ (henv : Env.Renames link naming env env') {exprs exprs' : List Expr}
    (hs : List.Forall₂ (Expr.Renames naming) exprs exprs') :
    link.InStep (List.Forall₂ (Value.Renames link)) (Runtime.evalAll world env exprs (fuel + 1))
      (Runtime.evalAll world env' exprs' (fuel + 1)) := by
  cases hs with
  | nil =>
    simp only [Runtime.evalAll]
    exact .pure .nil
  | cons h hs =>
    simp only [Runtime.evalAll]
    exact (ih.eval henv h).bind fun _ _ hvalue =>
      (ih.evalAll henv hs).map fun _ _ hvalues => .cons hvalue hvalues

/-- One step of the evaluation of renamed entries. -/
theorem evalEntries_succ (henv : Env.Renames link naming env env') {entries entries' : List Entry}
    (hs : List.Forall₂ (fun a b => a.key = b.key ∧ Expr.Renames naming a.value b.value) entries
      entries') :
    link.InStep (List.Forall₂ fun a b => a.1 = b.1 ∧ Value.Renames link a.2 b.2)
      (Runtime.evalEntries world env entries (fuel + 1))
      (Runtime.evalEntries world env' entries' (fuel + 1)) := by
  cases hs with
  | nil =>
    simp only [Runtime.evalEntries]
    exact .pure .nil
  | @cons entry entry' _ _ h hs =>
    obtain ⟨key, value⟩ := entry
    obtain ⟨key', value'⟩ := entry'
    simp only [Runtime.evalEntries]
    exact (ih.eval henv h.2).bind fun _ _ hvalue =>
      (ih.evalEntries henv hs).map fun _ _ hvalues => .cons ⟨h.1, hvalue⟩ hvalues

/-- One step of a test of all items. -/
theorem every_succ {test test' : Value} (array rest : List Data) (position : Nat)
    (h : Value.Renames link test test') :
    link.InStep Eq (Runtime.every world test array rest position (fuel + 1))
      (Runtime.every world test' array rest position (fuel + 1)) := by
  cases rest with
  | nil =>
    simp only [Runtime.every]
    exact .pure rfl
  | cons item rest =>
    simp only [Runtime.every]
    refine (ih.apply h (.data _) (.cons (.data _) (.cons (.data _) (.cons (.data _) .nil)))).bind
      fun _ _ hresult => ?_
    rw [hresult.truthy_eq]
    split
    · exact ih.every array rest (position + 1) h
    · exact .pure rfl

/-- One step of a map over all items. -/
theorem mapItems_succ {image image' : Value} (array rest : List Data) (position : Nat)
    (h : Value.Renames link image image') :
    link.InStep Eq (Runtime.mapItems world image array rest position (fuel + 1))
      (Runtime.mapItems world image' array rest position (fuel + 1)) := by
  cases rest with
  | nil =>
    simp only [Runtime.mapItems]
    exact .pure rfl
  | cons item rest =>
    simp only [Runtime.mapItems]
    refine (ih.apply h (.data _) (.cons (.data _) (.cons (.data _) (.cons (.data _) .nil)))).bind
      fun _ _ hresult => ?_
    refine (toData_inStep hresult).bind fun first first' hfirst => ?_
    exact (ih.mapItems array rest (position + 1) h).map fun _ _ hrest => by rw [hfirst, hrest]

/-- One step of a filter of all items. -/
theorem filter_succ {test test' : Value} (array rest : List Data) (position : Nat)
    (h : Value.Renames link test test') :
    link.InStep Eq (Runtime.filter world test array rest position (fuel + 1))
      (Runtime.filter world test' array rest position (fuel + 1)) := by
  cases rest with
  | nil =>
    simp only [Runtime.filter]
    exact .pure rfl
  | cons item rest =>
    simp only [Runtime.filter]
    refine (ih.apply h (.data _) (.cons (.data _) (.cons (.data _) (.cons (.data _) .nil)))).bind
      fun _ _ hresult => ?_
    rw [hresult.truthy_eq]
    exact (ih.filter array rest (position + 1) h).map fun _ _ hkept => by rw [hkept]

/-- Host functions and those that run through an array are called on data. -/
theorem apply_data (callable : Data) {this this' : Value} {arguments arguments' : List Value}
    (hthis : Value.Renames link this this')
    (hs : List.Forall₂ (Value.Renames link) arguments arguments') :
    link.InStep (Value.Renames link) (Runtime.apply world (.data callable) this arguments
      (fuel + 1))
      (Runtime.apply world (.data callable) this' arguments' (fuel + 1)) := by
  cases callable with
  | function callable =>
    cases callable with
    | host name =>
      simp only [Runtime.apply, Value.Renames.allData?_eq hs]
      refine (toData_inStep hthis).bind fun object object' hobject => ?_
      rw [hobject]
      split
      · exact (Linkage.InStep.ofExcept _).map fun _ _ heq => heq ▸ .data _
      · exact .stuck
    | native function =>
      cases function with
      | every =>
        simp only [Runtime.apply]
        refine traversal_inStep (fun items _ _ htest => ?_) hthis hs
        exact (ih.every items items 0 htest).map fun _ _ heq => heq ▸ .data _
      | map =>
        simp only [Runtime.apply]
        refine traversal_inStep (fun items _ _ himage => ?_) hthis hs
        exact (ih.mapItems items items 0 himage).map fun _ _ heq => heq ▸ .data _
      | filter =>
        simp only [Runtime.apply]
        refine traversal_inStep (fun items _ _ htest => ?_) hthis hs
        exact (ih.filter items items 0 htest).map fun _ _ heq => heq ▸ .data _
      | _ =>
        simp only [Runtime.apply]
        exact callNative_inStep _ hthis hs
  | _ =>
    simp only [Runtime.apply]
    exact .throws _

/-- One step of the call of renamed functions. -/
theorem apply_succ {function function' this this' : Value} {arguments arguments' : List Value}
    (h : Value.Renames link function function') (hthis : Value.Renames link this this')
    (hs : List.Forall₂ (Value.Renames link) arguments arguments') :
    link.InStep (Value.Renames link) (Runtime.apply world function this arguments (fuel + 1))
      (Runtime.apply world function' this' arguments' (fuel + 1)) := by
  cases h with
  | data callable => exact ih.apply_data callable hthis hs
  | closure henv hbody =>
    cases hbody with
    | concise h =>
      simp only [Runtime.apply]
      exact ih.eval (henv.bindAll _ hs) h
    | block kept =>
      simp only [Runtime.apply]
      refine (ih.exec _ (henv.bindAll _ hs) kept).map fun _ _ hresult => ?_
      cases hresult with
      | some hvalue => exact hvalue
      | none => exact .data _
  | cell position =>
    simp only [Runtime.apply]
    exact .stuck
  | record keys each =>
    simp only [Runtime.apply]
    exact .stuck

/-- One step of the execution of statements whose names are kept. -/
theorem exec_succ (statements : List Stmt) (henv : Env.Renames link naming env env')
    (kept : naming.Keeps (Stmt.identifiersOf statements)) :
    link.InStep (Option.Rel (Value.Renames link)) (Runtime.exec world env statements (fuel + 1))
      (Runtime.exec world env' statements (fuel + 1)) := by
  obtain ⟨hfunctions, hrest⟩ := leadingFunctions_keeps kept
  simp only [Runtime.exec]
  generalize leadingFunctions statements = parts at hfunctions hrest ⊢
  obtain ⟨functions, rest⟩ := parts
  cases functions with
  | cons function more =>
    exact ih.exec rest (.functions (fun other hother => (hfunctions other hother).under _) henv)
      (hrest.under _)
  | nil =>
    cases rest with
    | nil => exact .pure .none
    | cons stmt rest =>
      rw [Stmt.identifiersOf, Naming.keeps_append] at hrest
      obtain ⟨hstmt, hrest⟩ := hrest
      cases stmt with
      | const name value =>
        refine (ih.eval henv (value.renames_self hstmt)).bind fun _ _ hvalue => ?_
        exact ih.exec rest (.bind name hvalue henv) (hrest.under _)
      | branch condition consequent alternative =>
        rw [Stmt.identifiers, Naming.keeps_append, Naming.keeps_append] at hstmt
        obtain ⟨hcondition, hconsequent, halternative⟩ := hstmt
        refine (ih.eval henv (condition.renames_self hcondition)).bind fun _ _ hvalue => ?_
        rw [hvalue.truthy_eq]
        have hbranch (taken : Bool) : naming.Keeps
            (Stmt.identifiersOf (if taken then consequent else alternative)) := by
          cases taken
          · exact halternative
          · exact hconsequent
        refine (ih.exec _ henv (hbranch _)).bind fun _ _ hresult => ?_
        cases hresult with
        | some hvalue => exact .pure (.some hvalue)
        | none => exact ih.exec rest henv hrest
      | returns value =>
        exact (ih.eval henv (value.renames_self hstmt)).map fun _ _ hvalue => .some hvalue
      | throws value =>
        refine (ih.eval henv (value.renames_self hstmt)).bind fun _ _ hvalue => ?_
        refine (toData_inStep hvalue).bind fun _ _ hthrown => ?_
        rw [hthrown]
        exact .throws _
      | expression value =>
        exact (ih.eval henv (value.renames_self hstmt)).bind fun _ _ _ => ih.exec rest henv hrest

end Simulates

/-- Without steps nothing has a result, and with one more step each process does in step what it
does. -/
theorem simulates (world : World) (hlinked : link.Linked) (fuel : Nat) :
    Simulates link world fuel := by
  induction fuel with
  | zero =>
    constructor
    all_goals
      intros
      simp only [eval, evalCallee, evalAll, evalEntries, apply, every, mapItems, filter, exec]
      exact .stuck
  -- the processes call each other, so that one step of each needs all of them with a step less
  | succ fuel ih =>
    exact
      { eval := ih.eval_succ hlinked
        evalCallee := ih.evalCallee_succ
        evalAll := fun henv hs => ih.evalAll_succ henv hs
        evalEntries := fun henv hs => ih.evalEntries_succ henv hs
        apply := ih.apply_succ
        every := ih.every_succ
        mapItems := ih.mapItems_succ
        filter := ih.filter_succ
        exec := ih.exec_succ }

/-- What the renaming of an expression yields or how it fails, where the expression yields data or
fails. -/
theorem yields_renamed (hlinked : link.Linked) (henv : Env.Renames link naming env env')
    (h : Expr.Renames naming expr expr') {value : Data} {after : Heap}
    (hyields : (eval world env expr).Yields link.lead (.data value) after) :
    ∃ grown, after = link.lead ++ grown ∧
      (eval world env' expr').Yields link.lead' (.data value) (link.lead' ++ grown) := by
  obtain ⟨enough, hyields⟩ := hyields
  have houtcomes (fuel : Nat) (hfuel : enough ≤ fuel) : ∃ grown, after = link.lead ++ grown ∧
      (eval world env' expr' fuel).Yields link.lead' (.data value) (link.lead' ++ grown) := by
    have hstep := (simulates world hlinked fuel).eval henv h []
    rw [List.append_nil, List.append_nil, hyields fuel hfuel] at hstep
    unfold Run.Yields
    generalize eval world env' expr' fuel link.lead' = outcome at hstep ⊢
    generalize hresult : ExceptT.mk (some (Except.ok (Value.data value, after))) = result at hstep
    cases hstep with
    | stuck => cases hresult
    | failed failure => cases hresult
    | ended hvalue grown =>
      cases hresult
      cases hvalue
      exact ⟨grown, rfl, rfl⟩
  obtain ⟨grown, hafter, -⟩ := houtcomes enough (Nat.le_refl _)
  refine ⟨grown, hafter, enough, fun fuel hfuel => ?_⟩
  obtain ⟨grown', hafter', hrun⟩ := houtcomes fuel hfuel
  rwa [List.append_cancel_left (hafter.symm.trans hafter')]

/-- A failure carries over to the renamed expression. -/
theorem fails_renamed (hlinked : link.Linked) (henv : Env.Renames link naming env env')
    (h : Expr.Renames naming expr expr') {failure : Failure}
    (hfails : (eval world env expr).Fails link.lead failure) :
    (eval world env' expr').Fails link.lead' failure := by
  obtain ⟨enough, hfails⟩ := hfails
  refine ⟨enough, fun fuel hfuel => ?_⟩
  have hstep := (simulates world hlinked fuel).eval henv h []
  rw [List.append_nil, List.append_nil, hfails fuel hfuel] at hstep
  unfold Run.Fails
  generalize eval world env' expr' fuel link.lead' = outcome at hstep ⊢
  cases hstep with
  | failed failure => rfl

end

end TypedRoutes.Runtime
