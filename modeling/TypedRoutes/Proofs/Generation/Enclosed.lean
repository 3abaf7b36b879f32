import TypedRoutes.Proofs.Generation.Occurrences
import TypedRoutes.Proofs.Script.Composition

/-!
# Enclosing closures

Which closures stand around a part of an expression. What is said of names, of closures and of calls
of the factory by the closures around them is a condition; it is kept by every form in which
generated code is built, since none of these forms adds a name, a closure or a call of its own.
-/

namespace TypedRoutes

/-- The closure around what an expression is put together from, if the expression is one: the names
that it binds. -/
def Expr.layers : Expr → List String → List (List String)
  | .arrow _ _, bound => [bound]
  | _, _ => []

/-- The part stands in the expression inside of closures that bind these names, the innermost
first. -/
inductive Enclosed (part : Expr) : List (List String) → Expr → Prop where
  | here : Enclosed part [] part
  | inside {expr inner : Expr} {bound : List String} {closures : List (List String)}
      (h : (bound, inner) ∈ expr.scopes) (hpart : Enclosed part closures inner) :
      Enclosed part (closures ++ expr.layers bound) expr

/-- The part is no name and no closure, and it does not call the factory. -/
structure Plain (factory part : Expr) : Prop where
  name : ∀ name, part ≠ .identifier name
  closure : ∀ params body, part ≠ .arrow params body
  call : ¬ RuntimeCall factory part

/-- What is asked of the parts of an expression by the closures around them. Of plain parts nothing
is asked. -/
structure Condition (factory : Expr) where
  holds : List (List String) → Expr → Prop
  plain : ∀ closures part, Plain factory part → holds closures part

variable {factory expr inner part target index callee left right condition whenTrue
    whenFalse : Expr}
  {closures outer : List (List String)} {bound params : List String} {exprs arguments : List Expr}
  {key : String} {c : Condition factory}

/-- What is bound around a part of an expression, the closure in between binds. -/
theorem Expr.flatten_layers (hmem : (bound, inner) ∈ expr.scopes) :
    (expr.layers bound).flatten = bound := by
  cases expr with
  | arrow params body => simp [layers]
  | identifier | string | number | boolean | null => cases hmem
  | _ =>
    simp only [scopes, List.mem_cons, List.mem_map, List.not_mem_nil, Prod.mk.injEq] at hmem
    simp only [layers, List.flatten_nil]
    grind

/-- The closures around a part bind the names around it. -/
theorem Enclosed.occurs (h : Enclosed part closures expr) :
    Occurs part closures.flatten expr := by
  induction h with
  | here => exact .here
  | inside hmem _ ih =>
    rw [List.flatten_append, Expr.flatten_layers hmem]
    exact .inside hmem ih

/-- What occurs under names occurs in closures that bind just these names. -/
theorem Occurs.enclosed {names : List String} (h : Occurs part names expr) :
    ∃ closures, Enclosed part closures expr ∧ closures.flatten = names := by
  induction h with
  | here => exact ⟨[], .here, rfl⟩
  | inside hmem _ ih =>
    obtain ⟨closures, henclosed, rfl⟩ := ih
    refine ⟨_, .inside hmem henclosed, ?_⟩
    rw [List.flatten_append, Expr.flatten_layers hmem]

/-- An expression that binds nothing has no layers. -/
theorem Plain.layers_eq_nil (h : Plain factory expr) (bound : List String) :
    expr.layers bound = [] := by
  cases expr with
  | arrow params body => exact absurd rfl (h.closure params body)
  | _ => rfl

namespace Condition

/-- The condition for what stands inside of further closures. -/
def under (c : Condition factory) (outer : List (List String)) : Condition factory where
  holds closures part := c.holds (closures ++ outer) part
  plain closures part h := c.plain (closures ++ outer) part h

/-- No closures around an expression are no condition on it. -/
theorem under_nil (c : Condition factory) : c.under [] = c := by
  simp [under]

/-- Closures around closures are all of them around the expression. -/
theorem under_under (c : Condition factory) (outer inner : List (List String)) :
    (c.under outer).under inner = c.under (inner ++ outer) := by
  simp [under]

/-- Every part of the expression meets the condition where it stands. -/
def Everywhere (c : Condition factory) (expr : Expr) : Prop :=
  ∀ part closures, Enclosed part closures expr → c.holds closures part

namespace Everywhere

/-- An expression meets the condition if it does so itself and its parts do inside of it. -/
theorem of_scopes (hself : c.holds [] expr)
    (h : ∀ scope ∈ expr.scopes, (c.under (expr.layers scope.1)).Everywhere scope.2) :
    c.Everywhere expr := by
  intro part closures henclosed
  cases henclosed with
  | here => exact hself
  | inside hmem hpart => exact h _ hmem part _ hpart

/-- The parts of a plain expression stand inside of no closure. -/
theorem inside (h : c.Everywhere expr) (hplain : Plain factory expr)
    (hmem : ([], inner) ∈ expr.scopes) : c.Everywhere inner := by
  intro part closures henclosed
  have hpart := h part _ (.inside hmem henclosed)
  rwa [hplain.layers_eq_nil, List.append_nil] at hpart

/-- A condition that says nothing of the expression itself holds if it holds in all its scopes. -/
theorem of_parts (hplain : Plain factory expr)
    (h : ∀ scope ∈ expr.scopes, c.Everywhere scope.2) : c.Everywhere expr := by
  refine of_scopes (c.plain [] expr hplain) fun scope hscope => ?_
  rw [hplain.layers_eq_nil, under_nil]
  exact h scope hscope

/-- A name has no other place than its own. -/
theorem identifier {name : String} (h : c.holds [] (.identifier name)) :
    c.Everywhere (.identifier name) :=
  of_scopes h fun _ hscope => nomatch hscope

theorem string (value : String) : c.Everywhere (.string value) :=
  of_parts ⟨nofun, nofun, by simp [RuntimeCall, Expr.invoke]⟩ (by simp)

theorem number (value : Float) : c.Everywhere (.number value) :=
  of_parts ⟨nofun, nofun, by simp [RuntimeCall, Expr.invoke]⟩ (by simp)

theorem boolean (value : Bool) : c.Everywhere (.boolean value) :=
  of_parts ⟨nofun, nofun, by simp [RuntimeCall, Expr.invoke]⟩ (by simp)

theorem null : c.Everywhere .null :=
  of_parts ⟨nofun, nofun, by simp [RuntimeCall, Expr.invoke]⟩ (by simp)

/-- An access by name. -/
theorem property (h : c.Everywhere target) (key : String) : c.Everywhere (.property target key) :=
  of_parts ⟨nofun, nofun, by simp [RuntimeCall, Expr.invoke]⟩ (by simpa using h)

/-- An access by index. -/
theorem element (h : c.Everywhere target) (hi : c.Everywhere index) :
    c.Everywhere (.element target index) :=
  of_parts ⟨nofun, nofun, by simp [RuntimeCall, Expr.invoke]⟩ (by simp [h, hi])

/-- A unary operator. -/
theorem unary (op : UnaryOp) (h : c.Everywhere expr) : c.Everywhere (.unary op expr) :=
  of_parts ⟨nofun, nofun, by simp [RuntimeCall, Expr.invoke]⟩ (by simpa using h)

/-- A binary operator is neither a call nor a closure. -/
theorem plain_binary (factory : Expr) (op : BinaryOp) (left right : Expr) :
    Plain factory (.binary op left right) :=
  ⟨nofun, nofun, by simp [RuntimeCall, Expr.invoke]⟩

/-- A binary operator with both its operands. -/
theorem binary (op : BinaryOp) (hl : c.Everywhere left) (hr : c.Everywhere right) :
    c.Everywhere (.binary op left right) :=
  of_parts (plain_binary factory op left right) (by simp [hl, hr])

/-- A conditional with all its branches. -/
theorem conditional (h : c.Everywhere condition) (ht : c.Everywhere whenTrue)
    (hf : c.Everywhere whenFalse) : c.Everywhere (.conditional condition whenTrue whenFalse) :=
  of_parts ⟨nofun, nofun, by simp [RuntimeCall, Expr.invoke]⟩ (by simp [h, ht, hf])

/-- An array with all its elements. -/
theorem array (h : ∀ element ∈ exprs, c.Everywhere element) : c.Everywhere (.array exprs) :=
  of_parts ⟨nofun, nofun, by simp [RuntimeCall, Expr.invoke]⟩ (by simpa using h)

/-- An object with all its values. -/
theorem objectOf {entries : List (String × Expr)} (h : ∀ entry ∈ entries, c.Everywhere entry.2) :
    c.Everywhere (.objectOf entries) := by
  refine of_parts ⟨nofun, nofun, by simp [RuntimeCall, Expr.invoke, Expr.objectOf]⟩
    fun scope hscope => ?_
  obtain ⟨entry, hentry, rfl⟩ := List.mem_map.mp hscope
  obtain ⟨member, hmember, rfl⟩ := List.mem_map.mp hentry
  exact h member hmember

/-- What stands in a closure stands inside of its parameters. -/
theorem lambda {body : Expr} (hself : c.holds [] (.lambda params body))
    (h : (c.under [params]).Everywhere body) : c.Everywhere (.lambda params body) :=
  of_scopes hself (List.forall_mem_singleton.mpr h)

/-- What stands in a block stands inside of the parameters and of what the block declares. -/
theorem lambdaBlock {statements : List Stmt} (hself : c.holds [] (.lambdaBlock params statements))
    (h : ∀ stmt ∈ statements, ∀ scope ∈ stmt.scopes,
      (c.under [scope.1 ++ (declaredNames statements ++ params)]).Everywhere scope.2) :
    c.Everywhere (.lambdaBlock params statements) := by
  refine of_scopes hself fun scope hscope => ?_
  obtain ⟨inner, hinner, rfl⟩ := List.mem_map.mp hscope
  obtain ⟨stmt, hstmt, hmem⟩ := Stmt.mem_scopesOf.mp hinner
  exact h stmt hstmt inner hmem

/-- The scopes of a call are those of the function and the arguments. -/
theorem scopes_invoke (hcallee : c.Everywhere callee)
    (ha : ∀ argument ∈ arguments, c.Everywhere argument) :
    ∀ scope ∈ (Expr.invoke callee arguments).scopes, c.Everywhere scope.2 := by
  refine List.forall_mem_cons.mpr ⟨hcallee, fun scope hscope => ?_⟩
  obtain ⟨argument, hargument, rfl⟩ := List.mem_map.mp hscope
  exact ha argument hargument

/-- A call of what is no function of the factory. -/
theorem invoke (hcallee : ∀ key ∈ runtimeNames, callee ≠ .property factory key)
    (h : c.Everywhere callee) (ha : ∀ argument ∈ arguments, c.Everywhere argument) :
    c.Everywhere (.invoke callee arguments) := by
  refine of_parts ⟨nofun, nofun, ?_⟩ (scopes_invoke h ha)
  rintro ⟨key, hkey, other, heq⟩
  exact hcallee key hkey (Expr.call.inj heq).1

/-- A call of a function that is known by name. -/
theorem function {name : String} (h : c.holds [] (.identifier name))
    (ha : ∀ argument ∈ arguments, c.Everywhere argument) :
    c.Everywhere (.invoke (.identifier name) arguments) :=
  invoke (by simp) (.identifier h) ha

/-- A call of a method that is named like none of the factory's functions. -/
theorem method (h : c.Everywhere target) (hkey : key ∉ runtimeNames)
    (ha : ∀ argument ∈ arguments, c.Everywhere argument) :
    c.Everywhere (.invoke (.property target key) arguments) := by
  refine invoke (fun name hname heq => ?_) (h.property key) ha
  obtain ⟨-, rfl⟩ := Expr.property.inj heq
  exact hkey hname

/-- A call of the factory. -/
theorem runtime (hself : c.holds [] (.invoke (.property factory key) arguments))
    (h : c.Everywhere factory) (ha : ∀ argument ∈ arguments, c.Everywhere argument) :
    c.Everywhere (.invoke (.property factory key) arguments) := by
  refine of_scopes hself fun scope hscope => ?_
  rw [show (Expr.invoke (.property factory key) arguments).layers scope.1 = [] from rfl, under_nil]
  exact scopes_invoke (h.property key) ha scope hscope

/-- An access by name, however the name is written. -/
theorem member (h : c.Everywhere target) (key : String) : c.Everywhere (.member target key) := by
  rw [Expr.member]
  split
  · exact h.property key
  · exact h.element (.string key)

/-! Chains of operands. -/

/-- A condition composes over joined expressions. -/
theorem composes (c : Condition factory) : Expr.Composes c.Everywhere where
  string := string
  boolean := boolean
  binary {op left right} :=
    ⟨fun h => ⟨h.inside (plain_binary factory op left right) (by simp),
        h.inside (plain_binary factory op left right) (by simp)⟩,
      fun h => binary op h.1 h.2⟩

/-- A conjunction of expressions everywhere in which the condition holds. -/
theorem conjunction (h : ∀ expr ∈ exprs, c.Everywhere expr) :
    c.Everywhere (Expr.conjunction exprs) :=
  (composes c).conjunction h

/-- A disjunction of such expressions. -/
theorem disjunction (h : ∀ expr ∈ exprs, c.Everywhere expr) :
    c.Everywhere (Expr.disjunction exprs) :=
  (composes c).disjunction h

/-- A concatenation of such expressions. -/
theorem concatenation (h : ∀ expr ∈ exprs, c.Everywhere expr) :
    c.Everywhere (Expr.concatenation exprs) :=
  (composes c).concatenation h

end Everywhere

/-! ## Calls of the factory -/

/-- The condition on the names that are bound around calls of the factory. -/
def calls (factory : Expr) (allowed : List String → Prop) : Condition factory where
  holds closures part := RuntimeCall factory part → allowed closures.flatten
  plain _ _ h hcall := absurd hcall h.call

variable {allowed : List String → Prop}

/-- That only allowed calls occur around a factory is a condition on places. -/
theorem around_iff : Around factory allowed expr ↔ (calls factory allowed).Everywhere expr := by
  constructor
  · intro h part closures henclosed hcall
    exact h part _ hcall henclosed.occurs
  · intro h call names hcall hoccurs
    obtain ⟨closures, henclosed, rfl⟩ := hoccurs.enclosed
    exact h call closures henclosed hcall

/-- A name is no call. -/
theorem calls_identifier (name : String) :
    (calls factory allowed).holds closures (.identifier name) := by
  rintro ⟨_, _, _, heq⟩
  cases heq

/-- A closure is no call. -/
theorem calls_closure (params : List String) (body : Body) :
    (calls factory allowed).holds closures (.arrow params body) := by
  rintro ⟨_, _, _, heq⟩
  cases heq

/-- The factory is not called. -/
abbrev silence (factory : Expr) : Condition factory := calls factory fun _ => False

/-- An expression that does not call the factory may stand anywhere. -/
theorem Everywhere.under_of_silent (h : (silence factory).Everywhere expr) :
    ((calls factory allowed).under outer).Everywhere expr :=
  fun part closures henclosed hcall => (h part closures henclosed hcall).elim

/-- Where the factory does not occur, it is called by nothing. -/
theorem Everywhere.of_silent (h : (silence factory).Everywhere expr) :
    (calls factory allowed).Everywhere expr := by
  rw [← under_nil (calls factory allowed)]
  exact h.under_of_silent

end Condition

end TypedRoutes
