import TypedRoutes.Proofs.Generation.Scoping
import TypedRoutes.Proofs.Runtime.Tests
import Mathlib.Data.List.Forall2

/-!
# Likeness

Two expressions are alike when they differ only in the names that they are linked by, such as
helpers that are numbered differently. What is put together in the same way from expressions that
are alike is alike.
-/

namespace TypedRoutes

/-- The expressions differ only in linked names. Every other name is found in place by every program
or taken by an enclosing closure; the factory is not looked into. -/
inductive Alike (factory : Expr) (links : String → String → Prop) :
    List String → Expr → Expr → Prop where
  | linked {params : List String} {a b : String} (h : links a b) :
      Alike factory links params (.identifier a) (.identifier b)
  | parameter {params : List String} {name : String} (h : name ∈ params) (bound : Local name) :
      Alike factory links params (.identifier name) (.identifier name)
  | standard {params : List String} {name : String} (h : name ∈ standardNames) :
      Alike factory links params (.identifier name) (.identifier name)
  | runtime {params : List String} (name : String) :
      Alike factory links params (.property factory name) (.property factory name)
  | property {params : List String} {target target' : Expr}
      (h : Alike factory links params target target') (name : String) :
      Alike factory links params (.property target name) (.property target' name)
  | element {params : List String} {target target' index index' : Expr}
      (h : Alike factory links params target target')
      (hi : Alike factory links params index index') :
      Alike factory links params (.element target index) (.element target' index')
  | call {params : List String} {callee callee' : Expr} {arguments arguments' : List Expr}
      {span : Span} (h : Alike factory links params callee callee')
      (length : arguments.length = arguments'.length)
      (each : ∀ {a b}, (a, b) ∈ arguments.zip arguments' → Alike factory links params a b) :
      Alike factory links params (.call callee [] arguments span) (.call callee' [] arguments' span)
  | string {params : List String} (value : String) :
      Alike factory links params (.string value) (.string value)
  | number {params : List String} (value : Float) :
      Alike factory links params (.number value) (.number value)
  | boolean {params : List String} (value : Bool) :
      Alike factory links params (.boolean value) (.boolean value)
  | null {params : List String} : Alike factory links params .null .null
  | object {params : List String} {entries entries' : List Entry}
      (keys : entries.map Entry.key = entries'.map Entry.key)
      (each : ∀ {a b}, (a, b) ∈ entries.zip entries' →
        Alike factory links params a.value b.value) :
      Alike factory links params (.object entries) (.object entries')
  | array {params : List String} {elements elements' : List Expr}
      (length : elements.length = elements'.length)
      (each : ∀ {a b}, (a, b) ∈ elements.zip elements' → Alike factory links params a b) :
      Alike factory links params (.array elements) (.array elements')
  | lambda {params names : List String} {value value' : Expr} (bound : ∀ name ∈ names, Local name)
      (h : Alike factory links (names ++ params) value value') :
      Alike factory links params (.arrow names (.concise value)) (.arrow names (.concise value'))
  | unary {params : List String} {operand operand' : Expr} (op : UnaryOp)
      (h : Alike factory links params operand operand') :
      Alike factory links params (.unary op operand) (.unary op operand')
  | binary {params : List String} {left left' right right' : Expr} (op : BinaryOp)
      (hl : Alike factory links params left left') (hr : Alike factory links params right right') :
      Alike factory links params (.binary op left right) (.binary op left' right')
  | conditional {params : List String}
      {condition condition' whenTrue whenTrue' whenFalse whenFalse' : Expr}
      (h : Alike factory links params condition condition')
      (ht : Alike factory links params whenTrue whenTrue')
      (hf : Alike factory links params whenFalse whenFalse') :
      Alike factory links params (.conditional condition whenTrue whenFalse)
        (.conditional condition' whenTrue' whenFalse')

/-- In lists of one length every item has a counterpart. -/
theorem exists_mem_zip {α : Type} {l l' : List α} (hlength : l.length = l'.length) {a : α}
    (ha : a ∈ l) : ∃ b, (a, b) ∈ l.zip l' := by
  have hmap : a ∈ (l.zip l').map Prod.fst := by
    rwa [List.map_fst_zip (Nat.le_of_eq hlength)]
  obtain ⟨pair, hpair, rfl⟩ := List.mem_map.mp hmap
  exact ⟨pair.2, hpair⟩

namespace Alike

variable {factory : Expr} {links : String → String → Prop} {params : List String}
  {expr expr' : Expr} {exprs exprs' : List Expr}

/-- More parameters may be in sight. -/
theorem mono {wider : List String} (h : Alike factory links params expr expr')
    (hp : params ⊆ wider) : Alike factory links wider expr expr' := by
  induction h generalizing wider with
  | linked h => exact .linked h
  | parameter h bound => exact .parameter (hp h) bound
  | standard h => exact .standard h
  | runtime name => exact .runtime name
  | property _ name ih => exact .property (ih hp) name
  | element _ _ ih ihi => exact .element (ih hp) (ihi hp)
  | call _ length _ ih each => exact .call (ih hp) length fun hmem => each hmem hp
  | string value => exact .string value
  | number value => exact .number value
  | boolean value => exact .boolean value
  | null => exact .null
  | object keys _ each => exact .object keys fun hmem => each hmem hp
  | array length _ each => exact .array length fun hmem => each hmem hp
  | lambda bound _ ih =>
    refine .lambda bound (ih (List.append_subset.mpr ⟨List.subset_append_left _ _, ?_⟩))
    exact List.Subset.trans hp (List.subset_append_right _ _)
  | unary op _ ih => exact .unary op (ih hp)
  | binary op _ _ ihl ihr => exact .binary op (ihl hp) (ihr hp)
  | conditional _ _ _ ih iht ihf => exact .conditional (ih hp) (iht hp) (ihf hp)

/-- Where links lead from constants, the names of an expression are bound. -/
theorem toScoped {consts : List String} (h : Alike factory links params expr expr')
    (hlinks : ∀ {a b}, links a b → a ∈ consts) : Scoped factory consts params expr := by
  induction h with
  | linked h => exact .declared (hlinks h)
  | parameter h bound => exact .parameter h bound.not_helperName
  | standard h => exact .standard h
  | runtime name => exact .runtime name
  | property _ name ih => exact .property ih name
  | element _ _ ih ihi => exact .element ih ihi
  | call _ length _ ih each =>
    refine .call ih fun argument hargument => ?_
    obtain ⟨_, hpair⟩ := exists_mem_zip length hargument
    exact each hpair
  | string value => exact .string value
  | number value => exact .number value
  | boolean value => exact .boolean value
  | null => exact .null
  | object keys _ each =>
    refine .object fun entry hentry => ?_
    obtain ⟨_, hpair⟩ := exists_mem_zip (by simpa using congrArg List.length keys) hentry
    exact each hpair
  | array length _ each =>
    refine .array fun element helement => ?_
    obtain ⟨_, hpair⟩ := exists_mem_zip length helement
    exact each hpair
  | lambda _ _ ih => exact .lambda ih
  | unary op _ ih => exact .unary op ih
  | binary op _ _ ihl ihr => exact .binary op ihl ihr
  | conditional _ _ _ ih iht ihf => exact .conditional ih iht ihf

/-- Where linked names are the same, expressions that are alike are the same. -/
theorem eq_of_links (h : Alike factory links params expr expr')
    (hlinks : ∀ {a b}, links a b → a = b) : expr = expr' := by
  have hlists {exprs exprs' : List Expr} (length : exprs.length = exprs'.length)
      (each : ∀ {a b}, (a, b) ∈ exprs.zip exprs' → a = b) : exprs = exprs' := by
    rw [← List.forall₂_eq_eq_eq]
    exact List.forall₂_iff_zip.mpr ⟨length, each⟩
  induction h with
  | linked h => rw [hlinks h]
  | property _ _ ih => rw [ih]
  | element _ _ ih ihi => rw [ih, ihi]
  | call _ length _ ih each => rw [ih, hlists length each]
  | @object _ entries entries' keys _ each =>
    have length : entries.length = entries'.length := by simpa using congrArg List.length keys
    have hkeys : List.Forall₂ (fun a b => a.key = b.key) entries entries' := by
      rwa [← List.forall₂_eq_eq_eq, List.forall₂_map_left_iff, List.forall₂_map_right_iff] at keys
    congr 1
    rw [← List.forall₂_eq_eq_eq]
    refine List.forall₂_iff_zip.mpr ⟨length, fun {a b} hmem => ?_⟩
    obtain ⟨key, value⟩ := a
    obtain ⟨key', value'⟩ := b
    have hkey : key = key' := (List.forall₂_iff_zip.mp hkeys).2 hmem
    have hvalue : value = value' := each hmem
    rw [hkey, hvalue]
  | array length _ each => rw [hlists length each]
  | lambda _ _ ih => rw [ih]
  | unary _ _ ih => rw [ih]
  | binary _ _ _ ihl ihr => rw [ihl, ihr]
  | conditional _ _ _ ih iht ihf => rw [ih, iht, ihf]
  | _ => rfl

/-! ## Building expressions -/

/-- Literals are only like themselves. -/
theorem isBoolean_eq (h : Alike factory links params expr expr') (value : Bool) :
    expr.isBoolean value = expr'.isBoolean value := by
  cases h <;> rfl

/-- Calls of functions and arguments that are alike. -/
theorem invoke {callee callee' : Expr} (h : Alike factory links params callee callee')
    (hs : List.Forall₂ (Alike factory links params) exprs exprs') :
    Alike factory links params (.invoke callee exprs) (.invoke callee' exprs') :=
  .call h hs.length_eq fun hmem => List.forall₂_zip hs hmem

/-- Accesses by name of targets that are alike. -/
theorem member (h : Alike factory links params expr expr') (key : String) :
    Alike factory links params (.member expr key) (.member expr' key) := by
  simp only [Expr.member]
  split
  · exact .property h key
  · exact .element h (.string key)

/-- Arrays of elements that are alike. -/
theorem elements (hs : List.Forall₂ (Alike factory links params) exprs exprs') :
    Alike factory links params (.array exprs) (.array exprs') :=
  .array hs.length_eq fun hmem => List.forall₂_zip hs hmem

/-- Objects of values that are alike under the same keys. -/
theorem objectOf {entries entries' : List (String × Expr)}
    (hs : List.Forall₂ (fun a b => a.1 = b.1 ∧ Alike factory links params a.2 b.2)
      entries entries') :
    Alike factory links params (.objectOf entries) (.objectOf entries') := by
  refine .object ?_ fun {a b} hmem => ?_
  · induction hs with
    | nil => rfl
    | cons h _ ih => simpa [Entry.key, h.1] using ih
  · rw [List.zip_map] at hmem
    obtain ⟨⟨first, second⟩, hpair, heq⟩ := List.mem_map.mp hmem
    obtain ⟨rfl, rfl⟩ := Prod.mk.inj heq
    exact (List.forall₂_zip hs hpair).2

/-- The operands of a chain are alike one by one. -/
theorem operands (h : Alike factory links params expr expr') (op : BinaryOp) :
    List.Forall₂ (Alike factory links params) (expr.operands op) (expr'.operands op) := by
  induction expr using Expr.operands.induct op generalizing expr' with
  | case1 left right ihl ihr =>
    cases h with
    | binary _ hl hr =>
      rw [Expr.operands, Expr.operands, if_pos rfl, if_pos rfl]
      exact List.rel_append (ihl hl) (ihr hr)
  | case2 inner left right hne =>
    cases h with
    | binary _ hl hr =>
      rw [Expr.operands, Expr.operands, if_neg hne, if_neg hne]
      exact .cons (.binary inner hl hr) .nil
  | case3 other hother =>
    have hsingle : List.Forall₂ (Alike factory links params) [other] [expr'] := .cons h .nil
    cases h with
    | binary inner hl hr => exact absurd rfl (hother _ _ _)
    | _ => exact hsingle

/-- So are those of several chains. -/
theorem flatten (hs : List.Forall₂ (Alike factory links params) exprs exprs') (op : BinaryOp) :
    List.Forall₂ (Alike factory links params) (Expr.flatten op exprs) (Expr.flatten op exprs') := by
  induction hs with
  | nil => exact .nil
  | cons h _ ih =>
    simp only [Expr.flatten, List.flatMap_cons]
    exact List.rel_append (h.operands op) ih

/-- Chains of operands that are alike. -/
theorem foldl {op : BinaryOp} (h : Alike factory links params expr expr')
    (hs : List.Forall₂ (Alike factory links params) exprs exprs') :
    Alike factory links params (exprs.foldl (.binary op) expr)
      (exprs'.foldl (.binary op) expr') := by
  induction hs generalizing expr expr' with
  | nil => exact h
  | cons hfirst _ ih => exact ih (.binary op h hfirst)

/-- Chains that may be empty. -/
theorem chain {op : BinaryOp} {unit : Expr} (hunit : Alike factory links params unit unit)
    (hs : List.Forall₂ (Alike factory links params) exprs exprs') :
    Alike factory links params (Expr.chain op unit exprs) (Expr.chain op unit exprs') := by
  cases hs with
  | nil => exact hunit
  | cons h hs => exact h.foldl hs

/-- A literal is alike to the same literal only. -/
theorem any_isBoolean (hs : List.Forall₂ (Alike factory links params) exprs exprs')
    (value : Bool) : exprs.any (Expr.isBoolean value) = exprs'.any (Expr.isBoolean value) := by
  induction hs with
  | nil => rfl
  | cons h _ ih => rw [List.any_cons, List.any_cons, h.isBoolean_eq, ih]

/-- What is left beside a literal is alike one by one. -/
theorem filter_isBoolean (hs : List.Forall₂ (Alike factory links params) exprs exprs')
    (value : Bool) :
    List.Forall₂ (Alike factory links params) (exprs.filter fun expr => !expr.isBoolean value)
      (exprs'.filter fun expr => !expr.isBoolean value) := by
  induction hs with
  | nil => exact .nil
  | cons h _ ih =>
    rw [List.filter_cons, List.filter_cons, h.isBoolean_eq]
    split
    · exact .cons h ih
    · exact ih

/-- Combinations of conditions that are alike. -/
theorem combination {op : BinaryOp} {stop : Bool}
    (hs : List.Forall₂ (Alike factory links params) exprs exprs') :
    Alike factory links params (Expr.combination op stop exprs)
      (Expr.combination op stop exprs') := by
  have hflat := flatten hs op
  simp only [Expr.combination, any_isBoolean hflat]
  split
  · exact .boolean stop
  · exact chain (.boolean _) (filter_isBoolean hflat _)

/-- Conjunctions of conditions that are alike. -/
theorem conjunction (hs : List.Forall₂ (Alike factory links params) exprs exprs') :
    Alike factory links params (Expr.conjunction exprs) (Expr.conjunction exprs') := by
  rw [Expr.conjunction_eq, Expr.conjunction_eq]
  exact combination hs

/-- Disjunctions of conditions that are alike. -/
theorem disjunction (hs : List.Forall₂ (Alike factory links params) exprs exprs') :
    Alike factory links params (Expr.disjunction exprs) (Expr.disjunction exprs') := by
  rw [Expr.disjunction_eq, Expr.disjunction_eq]
  exact combination hs

/-- Neighbouring texts are merged alike. -/
theorem mergeLiterals (hs : List.Forall₂ (Alike factory links params) exprs exprs') :
    List.Forall₂ (Alike factory links params) (Expr.mergeLiterals exprs)
      (Expr.mergeLiterals exprs') := by
  induction hs with
  | nil => exact .nil
  | @cons expr expr' rest rest' h hs ih =>
    have hcons : List.Forall₂ (Alike factory links params) (expr :: Expr.mergeLiterals rest)
        (expr' :: Expr.mergeLiterals rest') := .cons h ih
    cases h with
    | string text =>
      simp only [Expr.mergeLiterals]
      generalize Expr.mergeLiterals rest = merged at ih hcons ⊢
      generalize Expr.mergeLiterals rest' = merged' at ih hcons ⊢
      cases ih with
      | nil => exact hcons
      | cons hfirst htail =>
        cases hfirst with
        | string more => exact .cons (.string _) htail
        | _ => exact hcons
    | _ => exact hcons

/-- Concatenations of parts that are alike. -/
theorem concatenation (hs : List.Forall₂ (Alike factory links params) exprs exprs') :
    Alike factory links params (Expr.concatenation exprs) (Expr.concatenation exprs') :=
  chain (.string "") (mergeLiterals (flatten hs .plus))

end Alike

end TypedRoutes
