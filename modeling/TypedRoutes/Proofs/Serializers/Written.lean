import TypedRoutes.Proofs.Serializers.Choices

/-!
# What serializers give

A serializer gives a text, or undefined where the standard serializer has no text for a value. What
it puts together from such values is again one: a concatenation starts with a text, joined items may
be undefined, and a choice gives what the chosen expression gives.
-/

namespace TypedRoutes.Runtime

variable {α : Type} {world : World} {env : Env} {expr : Expr} {parts : List Expr} {value : Data}

/-- What a serializer gives: a text, or undefined. -/
def Data.isWritten : Data → Bool
  | .string _ => true
  | .undefined => true
  | _ => false

theorem Data.text?_of_isWritten (world : World) (h : value.isWritten = true) :
    ∃ text, value.text? world = some text := by
  cases value <;> cases h <;> exact ⟨_, rfl⟩

/-- Where they are joined, what is written has texts. -/
theorem mapM_joinText?_isSome (world : World) {items : List Data}
    (h : ∀ item ∈ items, item.isWritten = true) :
    ∃ texts, items.mapM (joinText? world) = some texts := by
  induction items with
  | nil => exact ⟨[], rfl⟩
  | cons item rest ih =>
    obtain ⟨hitem, hrest⟩ := List.forall_mem_cons.mp h
    obtain ⟨texts, htexts⟩ := ih hrest
    obtain ⟨text, htext⟩ : ∃ text, joinText? world item = some text := by
      cases item <;> cases hitem <;> exact ⟨_, rfl⟩
    exact ⟨text :: texts, by simp [htext, htexts]⟩

/-- The expression evaluates to a text or to undefined, and the operands of its concatenations have
texts. -/
structure Writes (world : World) (env : Env) (expr : Expr) : Prop where
  gives : ∃ result : Data, result.isWritten = true ∧ Evaluates world env expr (.data result)
  pieces : ∃ text, Pieces world env (expr.operands .plus) text

theorem Spells.writes {text : String} (h : Spells world env expr text) : Writes world env expr :=
  ⟨⟨_, rfl, h.evaluates⟩, text, h.pieces⟩

namespace Writes

/-- An expression that is no concatenation. -/
theorem of_evaluates {result : Data} (hshape : expr.operands .plus = [expr])
    (hwritten : result.isWritten = true) (h : Evaluates world env expr (.data result)) :
    Writes world env expr := by
  obtain ⟨text, htext⟩ := Data.text?_of_isWritten world hwritten
  refine ⟨⟨result, hwritten, h⟩, text, ?_⟩
  rw [hshape]
  exact .singleton h htext

theorem string (text : String) : Writes world env (.string text) :=
  (Spells.string text).writes

/-! ## Lists -/

theorem flatten (h : ∀ part ∈ parts, Writes world env part) :
    ∃ text, Pieces world env (Expr.flatten .plus parts) text := by
  induction parts with
  | nil => exact ⟨"", .nil⟩
  | cons part rest ih =>
    obtain ⟨hpart, hrest⟩ := List.forall_mem_cons.mp h
    obtain ⟨first, hfirst⟩ := hpart.pieces
    obtain ⟨more, hmore⟩ := ih hrest
    exact ⟨first ++ more, hfirst.flatten_cons hmore⟩

/-- A label in front of what is written. -/
theorem labelled (label : String) (h : Writes world env expr) :
    Writes world env (Expr.concatenation [.string label, expr]) := by
  obtain ⟨text, hpieces⟩ := h.pieces
  exact (Spells.labelled label hpieces).writes

/-- A key in front of what is written. -/
theorem member {key : Expr} {text : String} (hkey : Spells world env key text)
    (h : Writes world env expr) :
    Writes world env (Expr.concatenation [key, .string ":", expr]) := by
  obtain ⟨more, hpieces⟩ := h.pieces
  exact (hkey.member hpieces).writes

/-- Parts that are written between an opening and a closing text. -/
theorem enclosed (opening closing : String) (h : ∀ part ∈ parts, Writes world env part) :
    Writes world env (Expr.concatenation (.string opening :: parts ++ [.string closing])) := by
  obtain ⟨text, hpieces⟩ := flatten h
  exact (Spells.enclosed opening closing hpieces).writes

/-- Written items joined between an opening and a closing text. -/
theorem bracketed {target : Expr} {items : List Data} (opening closing : String)
    (h : Evaluates world env target (.data (.array items)))
    (hitems : ∀ item ∈ items, item.isWritten = true) :
    Writes world env (Scope.bracketed opening target closing) := by
  obtain ⟨texts, htexts⟩ := mapM_joinText?_isSome world hitems
  exact (Spells.bracketed opening closing h htexts).writes

/-- A list whose items all write gives written items. -/
theorem list {items : List α} {envOf : α → Env} {exprOf : α → Expr}
    (h : ∀ item ∈ items, Writes world (envOf item) (exprOf item)) :
    ∃ images, (∀ image ∈ images, image.isWritten = true) ∧
      List.Forall₂ (fun item image =>
        Evaluates world (envOf item) (exprOf item) (.data image)) items images := by
  induction items with
  | nil => exact ⟨[], by simp, .nil⟩
  | cons item rest ih =>
    obtain ⟨hitem, hrest⟩ := List.forall_mem_cons.mp h
    obtain ⟨image, hwritten, heval⟩ := hitem.gives
    obtain ⟨images, hall, hevals⟩ := ih hrest
    exact ⟨image :: images, List.forall_mem_cons.mpr ⟨hwritten, hall⟩, .cons heval hevals⟩

/-! ## Choices -/

theorem conditional {condition whenTrue whenFalse : Expr} {flag : Bool}
    (hcondition : Evaluates world env condition (.data (.boolean flag)))
    (h : Writes world env (if flag then whenTrue else whenFalse)) :
    Writes world env (.conditional condition whenTrue whenFalse) := by
  obtain ⟨result, hwritten, heval⟩ := h.gives
  exact of_evaluates rfl hwritten (.conditional hcondition heval)

/-- The choice between the members of a union, of which one matches, writes. -/
theorem choose {definitions : TypeTable} {factory : Expr} {members : List Ty}
    {branches : List (Expr × Expr)} {otherwise : Expr}
    (hspares : Spares factory (Scope.choose branches otherwise))
    (hbranches : List.Forall₂ (Branch world definitions factory env value fun _ expr =>
      Writes world env expr) members branches)
    (hmatches : ∃ member ∈ members, Matches world definitions value member.kind) :
    Writes world env (Scope.choose branches otherwise) :=
  Branch.choose (motive := fun _ expr => Writes world env expr) (fun _ _ _ _ h => h)
    (fun _ _ _ _ h => h) (fun _ _ _ _ _ => .conditional) hspares hbranches hmatches

end Writes

end TypedRoutes.Runtime
