import TypedRoutes.Proofs.Runtime.Calculus

/-!
# Texts that programs put together

A concatenation of text parts evaluates to the parts one after the other: joining literals, and
flattening concatenations inside, does not change the text. Numbers and other primitive values may
be among the parts as long as a text stands in front.
-/

namespace TypedRoutes

namespace Expr

variable {expr : Expr} {op : BinaryOp}

/-- Every expression has at least one operand. -/
theorem operands_ne_nil (op : BinaryOp) (expr : Expr) : expr.operands op ≠ [] := by
  induction expr using operands.induct op with
  | case1 left right ihl _ => simp [operands, ihl]
  | case2 inner left right hne => simp [operands, hne]
  | case3 other hother => simp [operands]

/-- Operands are not taken apart again. -/
theorem operands_of_mem {operand : Expr} (h : operand ∈ expr.operands op) :
    operand.operands op = [operand] := by
  induction expr using operands.induct op with
  | case1 left right ihl ihr =>
    rw [operands, if_pos rfl, List.mem_append] at h
    exact h.elim ihl ihr
  | case2 inner left right hne =>
    rw [operands, if_neg hne, List.mem_singleton] at h
    rw [h, operands, if_neg hne]
  | case3 other hother =>
    have hsingle : other.operands op = [other] := by simp [operands]
    rw [hsingle, List.mem_singleton] at h
    rw [h, hsingle]

theorem operands_foldl (rest : List Expr) (first : Expr)
    (hrest : ∀ operand ∈ rest, operand.operands op = [operand]) :
    (rest.foldl (.binary op) first).operands op = first.operands op ++ rest := by
  induction rest generalizing first with
  | nil => simp
  | cons other rest ih =>
    have hother := hrest other List.mem_cons_self
    rw [List.foldl_cons, ih _ fun operand hmem => hrest operand (List.mem_cons_of_mem _ hmem)]
    rw [operands, if_pos rfl, hother, List.append_assoc]
    rfl

/-- A chain of expressions that are no chains of that operator has these as its operands. -/
theorem operands_chain {unit : Expr} {exprs : List Expr} (hne : exprs ≠ [])
    (h : ∀ operand ∈ exprs, operand.operands op = [operand]) :
    (chain op unit exprs).operands op = exprs := by
  obtain ⟨first, rest, rfl⟩ := List.exists_cons_of_ne_nil hne
  rw [chain, operands_foldl rest first fun operand hmem => h operand (List.mem_cons_of_mem _ hmem),
    h first List.mem_cons_self]
  rfl

/-- Joining literals leaves single operands. -/
theorem operands_of_mem_mergeLiterals {exprs : List Expr}
    (h : ∀ operand ∈ exprs, operand.operands op = [operand]) :
    ∀ operand ∈ mergeLiterals exprs, operand.operands op = [operand] := by
  fun_induction mergeLiterals exprs with
  | case1 => exact h
  | case2 literal rest joined tail hmerged ih =>
    have htail := ih fun operand hmem => h operand (List.mem_cons_of_mem _ hmem)
    rw [hmerged] at htail
    intro operand hmem
    rcases List.mem_cons.mp hmem with rfl | hmem
    · rfl
    · exact htail operand (List.mem_cons_of_mem _ hmem)
  | case3 literal rest hmerged ih =>
    have hrest := ih fun operand hmem => h operand (List.mem_cons_of_mem _ hmem)
    intro operand hmem
    rcases List.mem_cons.mp hmem with rfl | hmem
    · rfl
    · exact hrest operand hmem
  | case4 other rest hother ih =>
    have hrest := ih fun operand hmem => h operand (List.mem_cons_of_mem _ hmem)
    intro operand hmem
    rcases List.mem_cons.mp hmem with rfl | hmem
    · exact h operand List.mem_cons_self
    · exact hrest operand hmem

end Expr

namespace Runtime

variable {world : World} {env : Env} {expr first : Expr} {exprs rest : List Expr}
  {text more : String}

/-- The expressions evaluate to values whose texts together make the text. -/
inductive Pieces (world : World) (env : Env) : List Expr → String → Prop where
  | nil : Pieces world env [] ""
  | cons {expr : Expr} {rest : List Expr} {value : Data} {text more : String}
      (evaluates : Evaluates world env expr (.data value))
      (piece : value.text? world = some text) (others : Pieces world env rest more) :
      Pieces world env (expr :: rest) (text ++ more)

/-- The first of the expressions, if there is one, evaluates to a text. -/
def StartsWithText (world : World) (env : Env) (exprs : List Expr) : Prop :=
  ∀ first ∈ exprs.head?, ∃ text, Evaluates world env first (.data (.string text))

/-- A text in front of a value that has a text gives both texts behind one another. -/
theorem yields_plus_piece {left right : Expr} {value : Data}
    (hl : Evaluates world env left (.data (.string text)))
    (hr : Evaluates world env right (.data value)) (hpiece : value.text? world = some more) :
    Evaluates world env (.binary .plus left right) (.data (.string (text ++ more))) := by
  intro heap
  refine yields_plus (hl heap) (hr heap) ?_
  simp only [plus, hpiece]
  exact .pure _ heap

namespace Pieces

theorem singleton {value : Data} (h : Evaluates world env expr (.data value))
    (hpiece : value.text? world = some text) : Pieces world env [expr] text := by
  have hcons := Pieces.cons h hpiece .nil
  rwa [String.append_empty] at hcons

/-- Expressions that write two texts write them behind one another. -/
theorem append (h : Pieces world env exprs text) (hr : Pieces world env rest more) :
    Pieces world env (exprs ++ rest) (text ++ more) := by
  induction h with
  | nil => simpa using hr
  | cons evaluates piece _ ih =>
    rw [List.cons_append, String.append_assoc]
    exact .cons evaluates piece ih

theorem flatten_cons (h : Pieces world env (expr.operands .plus) text)
    (hr : Pieces world env (Expr.flatten .plus rest) more) :
    Pieces world env (Expr.flatten .plus (expr :: rest)) (text ++ more) := by
  rw [Expr.flatten, List.flatMap_cons]
  exact h.append hr

/-- Adding the pieces to a text. -/
theorem foldl (h : Pieces world env exprs more)
    (hfirst : Evaluates world env first (.data (.string text))) :
    Evaluates world env (exprs.foldl (.binary .plus) first) (.data (.string (text ++ more))) := by
  induction h generalizing first text with
  | nil => simpa using hfirst
  | cons evaluates piece _ ih =>
    rw [← String.append_assoc]
    exact ih (yields_plus_piece hfirst evaluates piece)

/-- A literal in front stands for itself. -/
theorem of_string {literal : String} (h : Pieces world env (.string literal :: rest) text) :
    ∃ others, text = literal ++ others ∧ Pieces world env rest others := by
  cases h with
  | cons evaluates piece others =>
    obtain ⟨hvalue, -⟩ := (evaluates []).unique (Evaluates.string literal [])
    cases hvalue
    cases piece
    exact ⟨_, rfl, others⟩

/-- A literal in front of pieces puts its text in front of theirs. -/
theorem string_cons (literal : String) (h : Pieces world env exprs text) :
    Pieces world env (.string literal :: exprs) (literal ++ text) :=
  .cons (Evaluates.string literal) rfl h

/-- Joining literals does not change the text. -/
theorem mergeLiterals (h : Pieces world env exprs text) :
    Pieces world env (Expr.mergeLiterals exprs) text := by
  fun_induction Expr.mergeLiterals exprs generalizing text with
  | case1 => exact h
  | case2 literal rest joined tail hmerged ih =>
    obtain ⟨others, rfl, hrest⟩ := h.of_string
    obtain ⟨last, rfl, htail⟩ := of_string (hmerged ▸ ih hrest)
    rw [← String.append_assoc]
    exact htail.string_cons _
  | case3 literal rest hmerged ih =>
    obtain ⟨others, rfl, hrest⟩ := h.of_string
    exact (ih hrest).string_cons literal
  | case4 other rest hother ih =>
    cases h with
    | cons evaluates piece others => exact .cons evaluates piece (ih others)

end Pieces

theorem StartsWithText.flatten_cons (h : StartsWithText world env (expr.operands .plus))
    (rest : List Expr) : StartsWithText world env (Expr.flatten .plus (expr :: rest)) := by
  obtain ⟨first, others, hoperands⟩ :=
    List.exists_cons_of_ne_nil (Expr.operands_ne_nil .plus expr)
  rw [Expr.flatten, List.flatMap_cons, hoperands]
  rw [hoperands] at h
  exact h

/-- Merging literals keeps a text at the start. -/
theorem StartsWithText.mergeLiterals (h : StartsWithText world env exprs) :
    StartsWithText world env (Expr.mergeLiterals exprs) := by
  fun_cases Expr.mergeLiterals exprs with
  | case1 => exact h
  | case2 literal rest joined tail hmerged =>
    rintro _ ⟨⟩
    exact ⟨_, Evaluates.string _⟩
  | case3 literal rest hmerged =>
    rintro _ ⟨⟩
    exact ⟨_, Evaluates.string _⟩
  | case4 other rest hother => exact h

/-- The expression evaluates to the text, and the operands of its concatenations are pieces of it,
the first one a text. -/
structure Spells (world : World) (env : Env) (expr : Expr) (text : String) : Prop where
  evaluates : Evaluates world env expr (.data (.string text))
  pieces : Pieces world env (expr.operands .plus) text
  starts : StartsWithText world env (expr.operands .plus)

namespace Spells

/-- An expression that is no concatenation. -/
theorem of_evaluates (hshape : expr.operands .plus = [expr])
    (h : Evaluates world env expr (.data (.string text))) : Spells world env expr text := by
  refine ⟨h, ?_, ?_⟩
  · rw [hshape]
    exact .singleton h rfl
  · rw [hshape]
    rintro _ ⟨⟩
    exact ⟨text, h⟩

theorem string (text : String) : Spells world env (.string text) text :=
  .of_evaluates rfl (Evaluates.string text)

/-- A concatenation evaluates to the texts of its parts, one after the other. -/
theorem concatenation (h : Pieces world env (Expr.flatten .plus exprs) text)
    (hstarts : StartsWithText world env (Expr.flatten .plus exprs)) :
    Spells world env (Expr.concatenation exprs) text := by
  have hsingle : ∀ operand ∈ Expr.flatten .plus exprs, operand.operands .plus = [operand] := by
    intro operand hmem
    obtain ⟨expr, -, hoperand⟩ := List.mem_flatMap.mp hmem
    exact Expr.operands_of_mem hoperand
  have hmerged := h.mergeLiterals
  have hfirst := hstarts.mergeLiterals
  have hsingle' := Expr.operands_of_mem_mergeLiterals hsingle
  rw [Expr.concatenation]
  generalize Expr.mergeLiterals (Expr.flatten .plus exprs) = merged at *
  cases hmerged with
  | nil => exact .string ""
  | @cons first rest value head tail evaluates piece others =>
    have hoperands : (Expr.chain .plus (.string "") (first :: rest)).operands .plus =
        first :: rest :=
      Expr.operands_chain (List.cons_ne_nil first rest) hsingle'
    obtain ⟨start, hstart⟩ := hfirst first rfl
    obtain ⟨hvalue, -⟩ := (evaluates []).unique (hstart [])
    cases hvalue
    cases piece
    refine ⟨others.foldl evaluates, ?_, ?_⟩
    · rw [hoperands]
      exact .cons evaluates rfl others
    · rw [hoperands]
      exact hfirst

end Spells

end Runtime

end TypedRoutes
