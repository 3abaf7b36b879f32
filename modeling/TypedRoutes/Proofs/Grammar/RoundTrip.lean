import TypedRoutes.Proofs.Grammar.Printed
import TypedRoutes.Proofs.Grammar.Reading

/-!
# Programs that are read back

A readable tree is read back from its text by the grammar of the language, in every layout: the
printer puts parentheses wherever the grammar would group differently. What is lost is only where
calls stood in their file.
-/

namespace TypedRoutes

open Grammar

variable {letters : Alphabet}

/-- An expression is read back from its text, with its own grouping. -/
theorem Expr.expression?_print {expr : Expr} (h : expr.Readable letters) (style : Style) :
    expression? letters (expr.print style) = some expr.withoutSpans := by
  have htokens : tokens? letters false false (expr.print style).toList = some expr.tokens :=
    (Expr.lexes_text style 0 h false).whole
  have hread := (Expr.isRead h).assignment [] nofun
  rw [List.append_nil] at hread
  rw [expression?, htokens]
  simp only [Option.bind_eq_bind, Option.bind_some, hread]
  rfl

/-- The same holds of a statement. -/
theorem Stmt.program?_print {stmt : Stmt} (h : stmt.Readable letters) (style : Style) :
    program? letters (stmt.print style) = some stmt.withoutSpans := by
  have htokens : tokens? letters false false (stmt.print style).toList = some stmt.tokens :=
    (Stmt.lexes_text style 0 h).whole
  have hread : statement? (stmt.tokens ++ []) = some (stmt.withoutSpans, []) :=
    Stmt.statement?_tokens h rfl
  rw [List.append_nil] at hread
  rw [program?, htokens]
  simp only [Option.bind_eq_bind, Option.bind_some, hread]
  rfl

/-- The alphabet of ASCII alone. -/
def Grammar.Alphabet.ascii : Alphabet := ⟨fun _ => false, fun _ => false⟩

/-- An expression in which operands bind too loosely for their places, on the left and on the right,
with a closure that is called on, one that is a branch, and a conditional form behind another. -/
def groupedExpr : Expr :=
  let a := Expr.identifier "a"
  let b := Expr.identifier "b"
  .conditional
    (.binary .strictEqual (.binary .and (.binary .or a b) a)
      (.unary .typeOf (.binary .plus (.number (-1.5))
        (.call (.property (.arrow ["x", "y"] (.concise (.object [.mk "if" a]))) "bind") []
          [.string "line\n", .binary .plus a (.binary .plus b a)] ⟨4, 9⟩))))
    (.arrow [] (.block [.const "v" (.element a (.number 0)),
      .branch (.unary .not (.binary .instanceOf a b)) [.returns (.identifier "v")]
        [.expression (.object [])], .throws (.array [])]))
    (.conditional a b .null)

theorem expression?_print_groupedExpr : groupedExpr.Readable .ascii ∧
    expression? .ascii (groupedExpr.print ⟨.tab, .carriageReturnLineFeed⟩) =
      some groupedExpr.withoutSpans := by
  have hreadable : groupedExpr.Readable .ascii := by
    have hnegative : (-1.5 : Float).isFinite = true := by decide +kernel
    have hzero : (0 : Float).isFinite = true := by decide +kernel
    have hnames : ∀ name ∈ ["a", "b", "v", "x", "y", "bind"],
        Alphabet.ascii.isName name = true := by decide
    simp only [List.forall_mem_cons] at hnames
    simp [groupedExpr, Expr.Readable, Expr.AllReadable, Entry.AllReadable, Body.Readable,
      Stmt.AllReadable, Stmt.Readable, Expr.isNumber, Expr.startsWithObject, Expr.isObject,
      hnegative,
      hzero, hnames]
  exact ⟨hreadable, Expr.expression?_print hreadable _⟩

end TypedRoutes
