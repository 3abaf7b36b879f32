import TypedRoutes.Artifact.Serialize
import TypedRoutes.Proofs.Generation.Binding
import TypedRoutes.Proofs.Generation.Stability
import TypedRoutes.Proofs.Runtime.Simulation
import TypedRoutes.Proofs.Runtime.Texts

/-!
# Code that spares the factory

Generated code can only rely on the factory where no name that it mentions is taken. What an
artifact does not bind, none of its parts binds, as long as no part is taken for the factory itself:
a part that mentions the value that is serialized is not, since that name is taken.
-/

namespace TypedRoutes

/-! ## Chains of operands -/

variable {factory expr part : Expr} {parts : List Expr} {name : String} {op : BinaryOp}

/-- What a binary operator binds is bound in one of its operands. -/
theorem binds_binary_iff {left right : Expr} : Binds factory name (.binary op left right) ↔
    Binds factory name left ∨ Binds factory name right := by
  constructor
  · intro h
    obtain ⟨-, part, hmem, hpart⟩ := h.of_children (by simp)
    simp only [Expr.children, List.mem_cons, List.not_mem_nil, or_false] at hmem
    rcases hmem with rfl | rfl
    · exact .inl hpart
    · exact .inr hpart
  · rintro (h | h)
    · exact .inside (by simp) (by simp [Expr.children]) h
    · exact .inside (by simp) (by simp [Expr.children]) h

/-- What a chain binds, one of its operands binds. -/
theorem Binds.exists_operand (h : Binds factory name expr) (op : BinaryOp) :
    ∃ operand ∈ expr.operands op, Binds factory name operand := by
  induction expr using Expr.operands.induct op with
  | case1 left right ihl ihr =>
    rw [Expr.operands, if_pos rfl]
    rcases binds_binary_iff.mp h with hl | hr
    · obtain ⟨operand, hmem, hbinds⟩ := ihl hl
      exact ⟨operand, List.mem_append_left _ hmem, hbinds⟩
    · obtain ⟨operand, hmem, hbinds⟩ := ihr hr
      exact ⟨operand, List.mem_append_right _ hmem, hbinds⟩
  | case2 inner left right hne =>
    rw [Expr.operands, if_neg hne]
    exact ⟨_, List.mem_singleton_self _, h⟩
  | case3 other hother =>
    rw [Expr.operands]
    · exact ⟨_, List.mem_singleton_self _, h⟩
    · exact hother

/-- What one operand of a chain binds is bound in the chain. -/
theorem Binds.foldl {first : Expr} {rest : List Expr}
    (h : ∃ operand ∈ first :: rest, Binds factory name operand) :
    Binds factory name (rest.foldl (.binary op) first) := by
  induction rest generalizing first with
  | nil =>
    obtain ⟨operand, hmem, hbinds⟩ := h
    rwa [List.mem_singleton.mp hmem] at hbinds
  | cons other rest ih =>
    obtain ⟨operand, hmem, hbinds⟩ := h
    refine ih ?_
    rcases List.mem_cons.mp hmem with rfl | hmem
    · exact ⟨_, List.mem_cons_self, binds_binary_iff.mpr (.inl hbinds)⟩
    · rcases List.mem_cons.mp hmem with rfl | hmem
      · exact ⟨_, List.mem_cons_self, binds_binary_iff.mpr (.inr hbinds)⟩
      · exact ⟨operand, List.mem_cons_of_mem _ hmem, hbinds⟩

/-- Joining literals loses no other part. -/
theorem Expr.mem_mergeLiterals (h : part ∈ parts) (hpart : ∀ text, part ≠ .string text) :
    part ∈ mergeLiterals parts := by
  fun_induction mergeLiterals parts with
  | case1 => exact h
  | case2 literal rest joined tail hmerged ih =>
    rcases List.mem_cons.mp h with rfl | h
    · exact absurd rfl (hpart literal)
    · have hrest := ih h
      rw [hmerged] at hrest
      rcases List.mem_cons.mp hrest with rfl | hrest
      · exact absurd rfl (hpart joined)
      · exact List.mem_cons_of_mem _ hrest
  | case3 literal rest hmerged ih =>
    rcases List.mem_cons.mp h with rfl | h
    · exact absurd rfl (hpart literal)
    · exact List.mem_cons_of_mem _ (ih h)
  | case4 other rest hother ih =>
    rcases List.mem_cons.mp h with rfl | h
    · exact List.mem_cons_self
    · exact List.mem_cons_of_mem _ (ih h)

/-- What a part of a concatenation binds, the concatenation binds. -/
theorem Binds.concatenation (hmem : part ∈ parts) (h : Binds factory name part) :
    Binds factory name (Expr.concatenation parts) := by
  obtain ⟨operand, hoperand, hbinds⟩ := h.exists_operand .plus
  have hliteral (text : String) : operand ≠ .string text := by
    rintro rfl
    obtain ⟨-, part, hmem, -⟩ := hbinds.of_children (by simp)
    cases hmem
  have hflat : operand ∈ Expr.flatten .plus parts := List.mem_flatMap.mpr ⟨part, hmem, hoperand⟩
  have hmerged := Expr.mem_mergeLiterals hflat hliteral
  rw [Expr.concatenation]
  cases hparts : Expr.mergeLiterals (Expr.flatten .plus parts) with
  | nil =>
    rw [hparts] at hmerged
    cases hmerged
  | cons first rest =>
    rw [hparts] at hmerged
    exact Binds.foldl ⟨operand, hmerged, hbinds⟩

/-! ## Parts -/

namespace Spares

variable {condition whenTrue whenFalse callee items body : Expr} {arguments entries : List Expr}
  {params : List String}

/-- What spares the factory does so in its parts, unless it is a property of the factory. -/
theorem child (h : Spares factory expr) (hexpr : ∀ key, expr ≠ .property factory key)
    (hmem : part ∈ expr.children) : Spares factory part :=
  fun name hname hbinds => h name hname (.inside hexpr hmem hbinds)

/-- The parts of a concatenation spare the factory. -/
theorem concatenation (h : Spares factory (Expr.concatenation parts)) (hmem : part ∈ parts) :
    Spares factory part :=
  fun name hname hbinds => h name hname (hbinds.concatenation hmem)

/-- The first branch of a conditional does. -/
theorem true_branch (h : Spares factory (.conditional condition whenTrue whenFalse)) :
    Spares factory whenTrue :=
  h.child (by simp) (by simp [Expr.children])

/-- The other branch does. -/
theorem false_branch (h : Spares factory (.conditional condition whenTrue whenFalse)) :
    Spares factory whenFalse :=
  h.child (by simp) (by simp [Expr.children])

/-- A function that is called does. -/
theorem call_callee (h : Spares factory (.invoke callee arguments)) : Spares factory callee :=
  h.child (by simp [Expr.invoke]) List.mem_cons_self

/-- An argument does. -/
theorem call_argument (h : Spares factory (.invoke callee arguments)) {argument : Expr}
    (hmem : argument ∈ arguments) : Spares factory argument :=
  h.child (by simp [Expr.invoke]) (List.mem_cons_of_mem _ hmem)

/-- The target of a property does, unless it is the factory itself. -/
theorem property_target (h : Spares factory (.property items name)) (hitems : items ≠ factory) :
    Spares factory items :=
  h.child (by simp [hitems]) (by simp [Expr.children])

/-- An element of an array does. -/
theorem array_element (h : Spares factory (.array entries)) {entry : Expr}
    (hmem : entry ∈ entries) :
    Spares factory entry :=
  h.child (by simp) hmem

/-- The body of a closure does. -/
theorem lambda_body (h : Spares factory (.lambda params body)) : Spares factory body :=
  h.child (by simp [Expr.lambda]) (by simp [Expr.lambda, Expr.children])

/-- The parameters of a closure are no names of the factory. -/
theorem lambda_params (h : Spares factory (.lambda params body)) (hname : name ∈ params) :
    name ∉ factory.identifiers :=
  fun hmentioned => h name hmentioned (.parameter hname)

/-- The parts of a list in brackets. -/
theorem bracketed {opening closing : String}
    (h : Spares factory (Scope.bracketed opening items closing))
    (hitems : items ≠ factory) : Spares factory items :=
  (h.concatenation (List.mem_cons_of_mem _ List.mem_cons_self)).call_callee.property_target hitems

/-- A choice spares what the choice between its first two members spares. -/
theorem choose {branch : Expr × Expr} {branches : List (Expr × Expr)} {otherwise : Expr}
    (h : Spares factory (Scope.choose (branch :: branches) otherwise)) :
    Spares factory branch.2 ∧
      (branch.1.isBoolean true = false → Spares factory (Scope.choose branches otherwise)) := by
  rw [Scope.choose, List.foldr_cons] at h
  split at h
  · rename_i hliteral
    exact ⟨h, fun hother => absurd hliteral (by simp [hother])⟩
  · exact ⟨h.true_branch, fun _ => h.false_branch⟩

end Spares

namespace Runtime

variable {world : World} {env : Env} {value : Value}

/-- Where its names are free, an expression means what it means where nothing is bound. -/
theorem Evaluates.elsewhere {value : Data} (h : Evaluates world .empty expr (.data value))
    (hfree : ∀ name ∈ expr.identifiers, env.lookup? name = none) :
    Evaluates world env expr (.data value) := by
  intro heap
  let link : Linkage := ⟨fun a b => a = b ∧ a ∈ expr.identifiers, .empty, env, heap, heap⟩
  have hlinked : link.Linked := by
    rintro a b ⟨rfl, hname⟩
    exact .inl ⟨rfl, rfl, hfree a hname⟩
  have hself : Expr.Renames link.naming expr expr := expr.renames_self fun _ hname => ⟨rfl, hname⟩
  obtain ⟨grown, hgrown, hyields⟩ := yields_renamed hlinked .base hself (h heap)
  change heap = heap ++ grown at hgrown
  change (eval world env expr).Yields heap (.data value) (heap ++ grown) at hyields
  rwa [← hgrown] at hyields

end Runtime

/-- An access by name mentions what its target does. -/
@[simp]
theorem Expr.identifiers_member (target : Expr) (key : String) :
    (Expr.member target key).identifiers = target.identifiers := by
  rw [Expr.member]
  split <;> simp [Expr.identifiers]

namespace Scope

open TypedRoutes.Runtime

/-- The factory's names are free, and of the names that the input mentions one is not. -/
structure Sees (scope : Scope) (env : Env) (input : Expr) : Prop where
  free : ∀ name ∈ scope.factory.identifiers, env.lookup? name = none
  taken : ∃ name ∈ input.identifiers, (env.lookup? name).isSome = true

namespace Sees

variable {scope : Scope} {env : Env} {input : Expr} {name : String}

/-- What mentions the input is not the factory. -/
theorem ne_factory (h : scope.Sees env input) (hmentions : input.identifiers ⊆ expr.identifiers) :
    expr ≠ scope.factory := by
  rintro rfl
  obtain ⟨name, hname, htaken⟩ := h.taken
  rw [h.free name (hmentions hname)] at htaken
  cases htaken

/-- What mentions the input sees the factory where the input does. -/
theorem inside {inner : Expr} (h : scope.Sees env input)
    (hmentions : input.identifiers ⊆ inner.identifiers) : scope.Sees env inner :=
  ⟨h.free, h.taken.imp fun _ hname => ⟨hmentions hname.1, hname.2⟩⟩

/-- A property of the input does. -/
theorem member (h : scope.Sees env input) (name : String) :
    scope.Sees env (Expr.member input name) :=
  h.inside (by rw [Expr.identifiers_member]; exact List.Subset.refl _)

/-- An element of the input does. -/
theorem element (h : scope.Sees env input) (index : Expr) :
    scope.Sees env (.element input index) := by
  refine h.inside ?_
  rw [Expr.identifiers]
  exact List.subset_append_left _ _

/-- Under a parameter that the factory does not mention. -/
theorem bind (hfree : ∀ name ∈ scope.factory.identifiers, env.lookup? name = none)
    (hname : name ∉ scope.factory.identifiers) (value : Value) :
    scope.Sees (.bind name value env) (.identifier name) where
  free other hother := by
    refine (Env.lookup?_bind_of_ne ?_ _ _).trans (hfree other hother)
    rintro rfl
    exact hname hother
  taken := ⟨name, by simp [Expr.identifiers], by simp [Env.lookup?]⟩

end Sees

end Scope

end TypedRoutes
