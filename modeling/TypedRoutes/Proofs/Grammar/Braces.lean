import TypedRoutes.Proofs.Grammar.RoundTrip
import TypedRoutes.Proofs.Runtime.Renaming
import TypedRoutes.Script.Build

/-!
# Texts that start with a brace

Where a statement or the value of a closure stands, a brace opens a block. An object literal is put
in parentheses there, but not an expression that only starts with one. Which expressions these are
follows from the parentheses that binding strength asks for, all along the way to the leftmost leaf.
-/

namespace TypedRoutes

open Grammar

/-- Whether the text of an expression starts with a brace: its leftmost leaf is an object literal,
and nothing on the way to it is in parentheses. -/
def Expr.opensBrace : Expr → Bool
  | .object _ => true
  | .property target _ | .element target _ => memberStrength ≤ target.strength && target.opensBrace
  | .call callee _ _ _ => memberStrength ≤ callee.strength && callee.opensBrace
  | .binary op left _ => op.strength ≤ left.strength && left.opensBrace
  | .conditional condition _ _ =>
    conditionalStrength + 1 ≤ condition.strength && condition.opensBrace
  | _ => false

variable {letters : Alphabet} {brace : Bool} {text : String}

/-- The text is not empty, and it starts with a brace if and only if one is expected. -/
def OpensWith (brace : Bool) (text : String) : Prop :=
  ∃ c rest, text.toList = c :: rest ∧ (c == '\x7b') = brace

namespace OpensWith

theorem head?_eq (h : OpensWith brace text) :
    text.toList.head? = some '\x7b' ↔ brace = true := by
  obtain ⟨c, rest, htext, rfl⟩ := h
  rw [htext, List.head?_cons, Option.some.injEq, beq_iff_eq]

theorem append (h : OpensWith brace text) (more : String) : OpensWith brace (text ++ more) := by
  obtain ⟨c, rest, htext, hc⟩ := h
  exact ⟨c, rest ++ more.toList, by rw [String.toList_append, htext]; rfl, hc⟩

theorem paren : OpensWith false "(" := ⟨'(', [], rfl, rfl⟩

theorem openingBrace : OpensWith true "\x7b" := ⟨'\x7b', [], rfl, rfl⟩

theorem grouped (h : OpensWith brace text) (needed : Bool) :
    OpensWith (!needed && brace) (grouped needed text) := by
  cases needed with
  | false => exact h
  | true => exact (paren.append text).append ")"

/-- An operand starts with a brace unless it is in parentheses. -/
theorem operand {expr : Expr} (h : OpensWith brace text) (required : Nat) :
    OpensWith (required ≤ expr.strength && brace) (expr.operandText required text) := by
  have hneeded : (!decide (expr.strength < required)) = decide (required ≤ expr.strength) := by
    rw [Bool.eq_iff_iff, Bool.not_eq_true', decide_eq_false_iff_not, decide_eq_true_eq, Nat.not_lt]
  rw [← hneeded]
  exact h.grouped _

/-- A word starts with no brace. -/
theorem word (h : letters.isWord text = true) : OpensWith false text := by
  obtain ⟨c, rest, htext, hstart, -⟩ := Alphabet.isWord_cons h
  refine ⟨c, rest, htext, ?_⟩
  by_contra hbrace
  obtain rfl := beq_iff_eq.mp (Bool.not_eq_false _ ▸ hbrace)
  rw [Alphabet.isStart_of_lt (by decide)] at hstart
  exact absurd hstart (by decide)

theorem number (value : Float) : OpensWith false (numberLiteral value) := by
  by_cases hfinite : value.isFinite = true
  · obtain ⟨c, rest, hmagnitude, hdigit⟩ := Json.exists_cons_of_scan (literalNumeral_spec hfinite).1
    rw [OpensWith, Json.numberLiteral_of_isFinite hfinite, String.toList_ofList, Decimal.signed]
    split
    · exact ⟨'-', _, rfl, rfl⟩
    · refine ⟨c, rest, hmagnitude, ?_⟩
      by_contra hbrace
      obtain rfl := beq_iff_eq.mp (Bool.not_eq_false _ ▸ hbrace)
      exact absurd hdigit (by decide)
  · have hspecial : value.isNaN = true ∨ value.isInf = true := by
      change value.toModel.unpack.isNaN = true ∨ value.toModel.unpack.isInf = true
      change ¬value.toModel.unpack.isFinite = true at hfinite
      cases hunpack : value.toModel.unpack <;> rw [hunpack] at hfinite <;>
        first | exact .inl rfl | exact .inr rfl | exact absurd rfl hfinite
    rw [numberLiteral]
    split
    · exact ⟨'N', _, rfl, rfl⟩
    · rename_i hnan
      rw [if_pos (hspecial.resolve_left hnan)]
      split
      · exact ⟨'-', _, rfl, rfl⟩
      · exact ⟨'I', _, rfl, rfl⟩

end OpensWith

/-- The first character of a text is that of its leftmost leaf, or a parenthesis in front of it. -/
theorem Expr.opensWith_text (style : Style) (depth : Nat) : ∀ {expr : Expr},
    (∀ name ∈ expr.identifiers, letters.isWord name = true) →
      OpensWith expr.opensBrace (expr.text style depth)
  | .identifier name, h => .word (h name (.head _))
  | .string value, _ => by
    have hquote : OpensWith false "\"" := ⟨'"', [], rfl, rfl⟩
    exact (hquote.append _).append _
  | .number value, _ => .number value
  | .boolean value, _ => by
    rw [Expr.text]
    cases value with
    | true => exact ⟨'t', _, rfl, rfl⟩
    | false => exact ⟨'f', _, rfl, rfl⟩
  | .null, _ => by
    rw [Expr.text]
    exact ⟨'n', _, rfl, rfl⟩
  | .object [], _ => .append .openingBrace "\x7d"
  | .object (.mk key value :: rest), _ => by
    rw [Expr.text]
    exact ((OpensWith.openingBrace.append _).append _).append _
  | .array elements, _ => by
    have hbracket : OpensWith false "[" := ⟨'[', [], rfl, rfl⟩
    rw [Expr.text]
    exact (hbracket.append _).append _
  | .arrow params body, _ => by
    rw [Expr.text]
    exact ((OpensWith.paren.append _).append _).append _
  | .unary op operand, _ => by
    rw [Expr.text]
    cases op with
    | not => exact .append ⟨'!', [], rfl, rfl⟩ _
    | typeOf => exact .append ⟨'t', _, rfl, rfl⟩ _
  | .property target name, h => by
    rw [Expr.identifiers] at h
    rw [Expr.text, Expr.opensBrace]
    exact (((Expr.opensWith_text style depth h).operand _).append _).append _
  | .element target index, h => by
    rw [Expr.identifiers, List.forall_mem_append] at h
    rw [Expr.text, Expr.opensBrace]
    exact ((((Expr.opensWith_text style depth h.1).operand _).append _).append _).append _
  | .call callee typeArguments arguments span, h => by
    rw [Expr.identifiers, List.forall_mem_append] at h
    rw [Expr.text, Expr.opensBrace]
    exact
      (((((Expr.opensWith_text style depth h.1).operand _).append _).append _).append _).append _
  | .binary op left right, h => by
    rw [Expr.identifiers, List.forall_mem_append] at h
    rw [Expr.text, Expr.opensBrace]
    exact
      (((((Expr.opensWith_text style depth h.1).operand _).append _).append _).append _).append _
  | .conditional condition whenTrue whenFalse, h => by
    rw [Expr.identifiers, List.forall_mem_append] at h
    rw [Expr.text, Expr.opensBrace]
    exact
      (((((Expr.opensWith_text style depth h.1).operand _).append _).append _).append _).append _

/-! ## Statements and values of closures -/

/-- No closure starts with a brace. -/
theorem Expr.opensBrace_of_loose {expr : Expr} (h : expr.strength < conditionalStrength) :
    expr.opensBrace = false := by
  cases expr with
  | arrow => rfl
  | binary op => cases op <;> exact absurd h (of_decide_eq_false rfl)
  | number value =>
    exact absurd (Nat.lt_of_le_of_lt (Expr.unaryStrength_le_number value) h)
      (of_decide_eq_false rfl)
  | _ => exact absurd h (of_decide_eq_false rfl)

variable {value : Expr} (style : Style) (depth : Nat)

theorem Stmt.opensWith_expression
    (h : ∀ name ∈ value.identifiers, letters.isWord name = true) :
    OpensWith (!value.isObject && value.opensBrace)
      ((Stmt.expression value).text style depth) := by
  rw [Stmt.text]
  exact ((Expr.opensWith_text style depth h).grouped _).append ";"

theorem Body.opensWith_concise
    (h : ∀ name ∈ value.identifiers, letters.isWord name = true) :
    OpensWith (!value.isObject && value.opensBrace)
      ((Body.concise value).text style depth) := by
  have hvalue := Expr.opensWith_text style depth h
  rw [Body.text]
  cases value.isObject with
  | true => exact (OpensWith.paren.append _).append ")"
  | false =>
    have hoperand : OpensWith _ (value.operandText conditionalStrength (value.text style depth)) :=
      hvalue.operand conditionalStrength
    by_cases hloose : value.strength < conditionalStrength
    · rwa [Expr.opensBrace_of_loose hloose, Bool.and_false, ← Expr.opensBrace_of_loose hloose]
        at hoperand
    · rwa [decide_eq_true (Nat.le_of_not_lt hloose)] at hoperand

/-- A text that starts with a brace is not read as an expression statement. -/
theorem program?_brace (h : OpensWith true text) : program? letters text = none := by
  obtain ⟨c, rest, htext, hc⟩ := h
  obtain rfl := beq_iff_eq.mp hc
  have hscan : scanToken letters '\x7b' ([] ++ rest) = some (.mark .openBrace, rest) := by
    rw [scanToken, Alphabet.isStart_of_lt (by decide)]
    rfl
  have htokens := tokens?_of_scan hscan (by decide) (rfl : (false && false) = false) rfl
  rw [List.nil_append] at htokens
  rw [program?, htext, htokens]
  cases tokens? letters (Token.mark .openBrace).isHeld false rest with
  | none => rfl
  | some ts =>
    simp only [Option.map_some, Option.bind_eq_bind, Option.bind_some, statement?]
    rfl

/-- The text of an expression statement, and that of the value of a closure, starts with a brace
exactly when the expression is no object literal and the way to its leftmost leaf, which is one,
leads through no parentheses. No such statement is read as an expression statement. -/
theorem startsWithBrace_iff (letters : Alphabet) (value : Expr)
    (hwords : ∀ name ∈ value.identifiers, letters.isWord name = true) (style : Style)
    (depth : Nat) :
    (((Stmt.expression value).text style depth).toList.head? = some '\x7b' ↔
      value.isObject = false ∧ value.opensBrace = true) ∧
    (((Body.concise value).text style depth).toList.head? = some '\x7b' ↔
      value.isObject = false ∧ value.opensBrace = true) ∧
    (value.isObject = false ∧ value.opensBrace = true →
      program? letters ((Stmt.expression value).print style) = none) := by
  have hstatement := Stmt.opensWith_expression style depth hwords
  have hconcise := Body.opensWith_concise style depth hwords
  have hprinted := Stmt.opensWith_expression style 0 hwords
  rw [← Bool.not_eq_true', ← Bool.and_eq_true]
  refine ⟨hstatement.head?_eq, hconcise.head?_eq, fun hbrace => ?_⟩
  rw [hbrace] at hprinted
  exact program?_brace hprinted

/-- Parentheses around the operand that an object literal starts keep the brace from coming
first. -/
theorem startsWithBrace_iff_grouped :
    (∀ name ∈ (Expr.element (.binary .plus (.object []) (.identifier "a"))
      (.identifier "b")).identifiers, Alphabet.ascii.isWord name = true) ∧
    ((Stmt.expression (.element (.binary .plus (.object []) (.identifier "a"))
      (.identifier "b"))).text {} 0).toList.head? ≠ some '\x7b' := by
  have hwords : ∀ name ∈ (Expr.element (.binary .plus (.object []) (.identifier "a"))
      (.identifier "b")).identifiers, Alphabet.ascii.isWord name = true := by decide
  refine ⟨hwords, fun hbrace => ?_⟩
  exact absurd ((startsWithBrace_iff .ascii _ hwords {} 0).1.mp hbrace).2 (by decide)

/-- A member of an object literal is written with the brace in front. -/
theorem startsWithBrace_property :
    (Stmt.expression (.property (.object [.mk "a" (.number 1)]) "a")).print {} =
      "\x7b a: 1 \x7d.a;" ∧
    (Expr.lambda ["p"] (.property (.object [.mk "a" (.number 1)]) "a")).print {} =
      "(p) => \x7b a: 1 \x7d.a" := by
  decide +kernel

end TypedRoutes
