import TypedRoutes.Proofs.Grammar.RoundTrip
import TypedRoutes.Proofs.Grammar.Strings
import TypedRoutes.Proofs.Types.Words

/-!
# Texts of several lines

The printer lays an object literal out before the texts of its values are known, by what the values
look like. What it goes by is exact: a line ends in the text of an expression if and only if there
is a block inside that is not empty, wherever it stands. So the entries of an object literal stand
on lines of their own exactly when the text of one of its values takes several lines.
-/

namespace TypedRoutes

variable {style : Style} {depth : Nat} {text : String}

/-! ## Line ends in texts -/

/-- Whether a line ends inside a text. -/
def hasLineEnd (text : String) : Bool :=
  text.toList.any fun c => c == '\n' || c == '\r'

/-- A text has a line end if one of its halves has. -/
@[simp] theorem hasLineEnd_append (front back : String) :
    hasLineEnd (front ++ back) = (hasLineEnd front || hasLineEnd back) := by
  rw [hasLineEnd, String.toList_append, List.any_append]
  rfl

/-- A text without line end has neither of the two characters. -/
theorem hasLineEnd_eq_false : hasLineEnd text = false ↔ ∀ c ∈ text.toList, c ≠ '\n' ∧ c ≠ '\r' := by
  simp [hasLineEnd]

/-- Parentheses have no line end. -/
@[simp] theorem hasLineEnd_grouped (needed : Bool) (text : String) :
    hasLineEnd (grouped needed text) = hasLineEnd text := by
  cases needed with
  | false => rfl
  | true =>
    rw [grouped, if_pos rfl, hasLineEnd_append, hasLineEnd_append,
      Bool.or_comm (hasLineEnd "(" || _)]
    rfl

/-- An operand has a line end where its text has. -/
@[simp] theorem hasLineEnd_operandText (expr : Expr) (required : Nat) (text : String) :
    hasLineEnd (expr.operandText required text) = hasLineEnd text :=
  hasLineEnd_grouped _ text

/-- Texts between separators have a line end where one of them has. -/
theorem hasLineEnd_separated {separator : String} (h : hasLineEnd separator = false)
    (texts : List String) : hasLineEnd (separated separator texts) = texts.any hasLineEnd := by
  cases texts with
  | nil => rfl
  | cons first rest =>
    rw [separated, List.any_cons]
    induction rest generalizing first with
    | nil => simp
    | cons next rest ih => rw [List.foldl_cons, ih]; simp [h, Bool.or_assoc]

/-- A quoted text has no line end, since line ends are escaped. -/
@[simp] theorem hasLineEnd_quoteText (text : String) : hasLineEnd (quoteText text) = false :=
  hasLineEnd_eq_false.mpr (Grammar.quotes_quoteText text).unbroken

/-- A word has no line end. -/
theorem hasLineEnd_of_isWord (h : TypeText.IsWord .ascii text) : hasLineEnd text = false := by
  refine hasLineEnd_eq_false.mpr fun c hc => ⟨?_, ?_⟩ <;>
  · rintro rfl
    exact absurd (h.2 _ hc) (by decide)

/-- A key has no line end. -/
@[simp] theorem hasLineEnd_keyText (key : String) : hasLineEnd (keyText key) = false := by
  rw [keyText]
  split
  · rename_i hkey
    exact hasLineEnd_of_isWord (TypeText.isWord_of_isIdentifier hkey)
  · exact hasLineEnd_quoteText key

/-- The literal of a number has no line end. -/
@[simp] theorem hasLineEnd_numberLiteral (value : Float) :
    hasLineEnd (numberLiteral value) = false :=
  hasLineEnd_of_isWord (TypeText.numberLiteral_spec .ascii value).1

/-- A new line starts with a line end. -/
@[simp] theorem hasLineEnd_newLine (style : Style) (depth : Nat) :
    hasLineEnd (style.newLine depth) = true := by
  rw [Style.newLine, hasLineEnd_append]
  cases style.lineEnd <;> rfl

@[simp] theorem UnaryOp.hasLineEnd_text (op : UnaryOp) : hasLineEnd op.text = false := by
  cases op <;> rfl

@[simp] theorem BinaryOp.hasLineEnd_text (op : BinaryOp) : hasLineEnd op.text = false := by
  cases op <;> rfl

/-- The marks and words that expressions are written with, besides operators. -/
def marks : List String :=
  ["(", ")", "[", "]", "\x7b", "\x7d", "\x7b\x7d", "<", ">", ".", ",", ", ", ": ", " ", " ? ",
    " : ", ") => ",
    "true", "false", "null"]

/-- No mark has a line end. -/
theorem hasLineEnd_mark (h : text ∈ marks) : hasLineEnd text = false := by
  have hmarks : ∀ mark ∈ marks, hasLineEnd mark = false := by decide
  exact hmarks text h

/-! ## Expressions -/

mutual

/-- The names and types that stand in the text of an expression as they are. Those inside blocks are
left out, for a block that is not empty takes several lines in any case. -/
def Expr.bareTexts : Expr → List String
  | .identifier name => [name]
  | .property target name => name :: target.bareTexts
  | .element target index => target.bareTexts ++ index.bareTexts
  | .call callee typeArguments arguments _ =>
    callee.bareTexts ++ (TypeExpr.texts typeArguments ++ Expr.bareTextsOf arguments)
  | .object entries => Entry.bareTextsOf entries
  | .array elements => Expr.bareTextsOf elements
  | .arrow params body => params ++ body.bareTexts
  | .unary _ operand => operand.bareTexts
  | .binary _ left right => left.bareTexts ++ right.bareTexts
  | .conditional condition whenTrue whenFalse =>
    condition.bareTexts ++ (whenTrue.bareTexts ++ whenFalse.bareTexts)
  | _ => []

/-- The names and types in the texts of expressions. -/
def Expr.bareTextsOf : List Expr → List String
  | [] => []
  | expr :: rest => expr.bareTexts ++ Expr.bareTextsOf rest

/-- The names and types in the texts of the values of entries. -/
def Entry.bareTextsOf : List Entry → List String
  | [] => []
  | .mk _ value :: rest => value.bareTexts ++ Entry.bareTextsOf rest

/-- The names and types in the text of a closure behind its arrow. -/
def Body.bareTexts : Body → List String
  | .concise value => value.bareTexts
  | .block _ => []

end

/-- None of the texts takes several lines. -/
def Unbroken (texts : List String) : Prop := ∀ text ∈ texts, hasLineEnd text = false

instance (texts : List String) : Decidable (Unbroken texts) :=
  inferInstanceAs (Decidable (∀ text ∈ texts, hasLineEnd text = false))

/-- None of the texts has a line end. -/
theorem Unbroken.any {texts : List String} (h : Unbroken texts) : texts.any hasLineEnd = false :=
  List.any_eq_false.mpr fun text htext => by rw [h text htext]; exact Bool.false_ne_true

/-- Two lists of texts without line ends. -/
theorem unbroken_append {front back : List String} :
    Unbroken (front ++ back) ↔ Unbroken front ∧ Unbroken back :=
  List.forall_mem_append

/-- A text and others without line ends. -/
theorem unbroken_cons {first : String} {rest : List String} :
    Unbroken (first :: rest) ↔ hasLineEnd first = false ∧ Unbroken rest :=
  List.forall_mem_cons

/-- Type arguments have no line end if no type has one. -/
theorem hasLineEnd_typeArgumentsText {types : List TypeExpr} (h : Unbroken (TypeExpr.texts types)) :
    hasLineEnd (typeArgumentsText types) = false := by
  cases types with
  | nil => rfl
  | cons first rest =>
    simp (disch := decide) only [typeArgumentsText, hasLineEnd_append, hasLineEnd_mark,
      hasLineEnd_separated, h.any, Bool.or_false]

mutual

/-- A line ends in the text of an expression exactly when there is a block inside that is not
empty. -/
theorem Expr.hasLineEnd_text (style : Style) (depth : Nat) : ∀ {expr : Expr},
    Unbroken expr.bareTexts → hasLineEnd (expr.text style depth) = expr.spansLines
  | .identifier name, h => h name (.head _)
  | .string value, _ => hasLineEnd_quoteText value
  | .number value, _ => hasLineEnd_numberLiteral value
  | .boolean true, _ | .boolean false, _ | .null, _ => by
    simp (disch := decide) only [Expr.text, Expr.spansLines, hasLineEnd_mark]
  | .object [], _ => by
    simp (disch := decide) only [Expr.text, Expr.spansLines, Entry.anySpansLines, hasLineEnd_mark]
  | .object (.mk key value :: rest), h => by
    obtain ⟨hvalue, hrest⟩ := unbroken_append.mp h
    rw [Expr.text, Expr.spansLines, Entry.anySpansLines]
    cases hlines : value.spansLines || Entry.anySpansLines rest with
    | true =>
      simp only [if_true, hasLineEnd_append, hasLineEnd_newLine, Bool.or_true, Bool.true_or]
    | false =>
      -- without line ends between the entries, only those inside the values are left
      have hspace : hasLineEnd " " = false := rfl
      simp (disch := decide) only [Bool.false_eq_true, if_false, hasLineEnd_append, hasLineEnd_mark,
        hasLineEnd_separated, List.any_cons, hasLineEnd_keyText,
        Expr.hasLineEnd_text style (depth + 1) hvalue,
        Entry.any_texts style (depth + 1) hspace hrest, Bool.or_false, Bool.false_or, hlines]
  | .array elements, h => by
    simp (disch := decide) only [Expr.text, Expr.spansLines, hasLineEnd_append, hasLineEnd_mark,
      hasLineEnd_separated, Expr.any_texts style depth h, Bool.or_false, Bool.false_or]
  | .arrow params body, h => by
    obtain ⟨hparams, hbody⟩ := unbroken_append.mp h
    simp (disch := decide) only [Expr.text, Expr.spansLines, hasLineEnd_append, hasLineEnd_mark,
      hasLineEnd_separated, hparams.any, Body.hasLineEnd_text style depth hbody, Bool.false_or]
  | .unary op operand, h => by
    rw [Expr.bareTexts] at h
    simp only [Expr.text, Expr.spansLines, hasLineEnd_append, UnaryOp.hasLineEnd_text,
      hasLineEnd_operandText, Expr.hasLineEnd_text style depth h, Bool.false_or]
  | .property target name, h => by
    obtain ⟨hname, htarget⟩ := unbroken_cons.mp h
    simp (disch := decide) only [Expr.text, Expr.spansLines, hasLineEnd_append, hasLineEnd_mark,
      hasLineEnd_operandText, Expr.hasLineEnd_text style depth htarget, hname, Bool.or_false]
  | .element target index, h => by
    obtain ⟨htarget, hindex⟩ := unbroken_append.mp h
    simp (disch := decide) only [Expr.text, Expr.spansLines, hasLineEnd_append, hasLineEnd_mark,
      hasLineEnd_operandText, Expr.hasLineEnd_text style depth htarget,
      Expr.hasLineEnd_text style depth hindex, Bool.or_false]
  | .call callee typeArguments arguments _, h => by
    obtain ⟨hcallee, h⟩ := unbroken_append.mp h
    obtain ⟨htypes, harguments⟩ := unbroken_append.mp h
    simp (disch := decide) only [Expr.text, Expr.spansLines, hasLineEnd_append, hasLineEnd_mark,
      hasLineEnd_operandText, hasLineEnd_separated, Expr.hasLineEnd_text style depth hcallee,
      hasLineEnd_typeArgumentsText htypes, Expr.any_texts style depth harguments, Bool.or_false]
  | .binary op left right, h => by
    obtain ⟨hleft, hright⟩ := unbroken_append.mp h
    simp (disch := decide) only [Expr.text, Expr.spansLines, hasLineEnd_append, hasLineEnd_mark,
      hasLineEnd_operandText, BinaryOp.hasLineEnd_text, Expr.hasLineEnd_text style depth hleft,
      Expr.hasLineEnd_text style depth hright, Bool.or_false]
  | .conditional condition whenTrue whenFalse, h => by
    obtain ⟨hcondition, h⟩ := unbroken_append.mp h
    obtain ⟨htrue, hfalse⟩ := unbroken_append.mp h
    simp (disch := decide) only [Expr.text, Expr.spansLines, hasLineEnd_append, hasLineEnd_mark,
      hasLineEnd_operandText, Expr.hasLineEnd_text style depth hcondition,
      Expr.hasLineEnd_text style depth htrue, Expr.hasLineEnd_text style depth hfalse,
      Bool.or_false]

/-- A line ends in what stands behind an arrow. -/
theorem Body.hasLineEnd_text (style : Style) (depth : Nat) : ∀ {body : Body},
    Unbroken body.bareTexts → hasLineEnd (body.text style depth) = body.spansLines
  | .concise value, h => by
    rw [Body.bareTexts] at h
    have hvalue := Expr.hasLineEnd_text style depth h
    rw [Body.text, Body.spansLines]
    split
    · simp (disch := decide) only [hasLineEnd_append, hasLineEnd_mark, hvalue, Bool.or_false,
        Bool.false_or]
    · rw [hasLineEnd_operandText, hvalue]
  | .block [], _ => by
    simp (disch := decide) only [Body.text, Body.spansLines, Stmt.blockText, hasLineEnd_mark]
    rfl
  | .block (first :: rest), _ => by
    simp only [Body.text, Body.spansLines, Stmt.blockText, hasLineEnd_append, hasLineEnd_newLine,
      Bool.or_true, Bool.true_or]
    rfl

/-- A line ends in one of the texts of expressions. -/
theorem Expr.any_texts (style : Style) (depth : Nat) : ∀ {exprs : List Expr},
    Unbroken (Expr.bareTextsOf exprs) →
      (Expr.texts style depth exprs).any hasLineEnd = Expr.anySpansLines exprs
  | [], _ => rfl
  | expr :: rest, h => by
    obtain ⟨hexpr, hrest⟩ := unbroken_append.mp h
    rw [Expr.texts, Expr.anySpansLines, List.any_cons, Expr.hasLineEnd_text style depth hexpr,
      Expr.any_texts style depth hrest]

/-- A line ends in one of the texts of entries behind a lead. -/
theorem Entry.any_texts (style : Style) (depth : Nat) {lead : String}
    (hlead : hasLineEnd lead = false) :
    ∀ {entries : List Entry}, Unbroken (Entry.bareTextsOf entries) →
      (Entry.texts style depth lead entries).any hasLineEnd = Entry.anySpansLines entries
  | [], _ => rfl
  | .mk key value :: rest, h => by
    obtain ⟨hvalue, hrest⟩ := unbroken_append.mp h
    simp (disch := decide) only [Entry.texts, Entry.anySpansLines, List.any_cons, hasLineEnd_append,
      hasLineEnd_mark, hlead, hasLineEnd_keyText, Expr.hasLineEnd_text style depth hvalue,
      Entry.any_texts style depth hlead hrest, Bool.false_or]

end

/-! ## Object literals -/

/-- The text of an object literal that is not empty, with its entries on lines of their own or all
on one line. -/
def objectText (style : Style) (depth : Nat) (lines : Bool) (entries : List Entry) : String :=
  let lead := if lines then style.newLine (depth + 1) else " "
  let close := if lines then style.newLine depth else " "
  let texts := entries.map fun entry =>
    lead ++ (keyText entry.key ++ ": " ++ entry.value.text style (depth + 1))
  "\x7b" ++ separated "," texts ++ close ++ "\x7d"

/-- Entries are written one by one, each behind its lead. -/
theorem Entry.texts_eq_map (style : Style) (depth : Nat) (lead : String) (entries : List Entry) :
    Entry.texts style depth lead entries =
      entries.map fun entry => lead ++ (keyText entry.key ++ ": " ++
        entry.value.text style depth) := by
  induction entries with
  | nil => rfl
  | cons entry rest ih =>
    obtain ⟨key, value⟩ := entry
    rw [Entry.texts, ih, List.map_cons]
    rfl

/-- An object with entries is written around them. -/
theorem Expr.text_object (style : Style) (depth : Nat) {entries : List Entry} (hne : entries ≠ []) :
    (Expr.object entries).text style depth =
      objectText style depth (Entry.anySpansLines entries) entries := by
  obtain ⟨⟨key, value⟩, rest, rfl⟩ := List.exists_cons_of_ne_nil hne
  rw [Expr.text, objectText, Entry.anySpansLines, List.map_cons, Entry.texts_eq_map]
  rfl

/-- Entries take lines of their own if the value of one has a line end. -/
theorem Entry.anySpansLines_eq_any (style : Style) (depth : Nat) {entries : List Entry}
    (h : Unbroken (Entry.bareTextsOf entries)) :
    Entry.anySpansLines entries =
      entries.any fun entry => hasLineEnd (entry.value.text style depth) := by
  induction entries with
  | nil => rfl
  | cons entry rest ih =>
    obtain ⟨key, value⟩ := entry
    obtain ⟨hvalue, hrest⟩ := unbroken_append.mp h
    rw [Entry.anySpansLines, List.any_cons, ih hrest, ← Expr.hasLineEnd_text style depth hvalue]
    rfl

/-- A line ends in the text of an expression exactly when the printer takes it to span several
lines, and the entries of an object literal stand on lines of their own exactly when a line ends in
the text of one of its values. -/
theorem hasLineEnd_iff_spansLines (expr : Expr) (hbare : Unbroken expr.bareTexts) (style : Style)
    (depth : Nat) :
    (hasLineEnd (expr.text style depth) = true ↔ expr.spansLines = true) ∧
    ∀ entries, expr = .object entries → entries ≠ [] → expr.text style depth =
      objectText style depth
        (entries.any fun entry => hasLineEnd (entry.value.text style (depth + 1))) entries := by
  refine ⟨by rw [Expr.hasLineEnd_text style depth hbare], ?_⟩
  rintro entries rfl hne
  rw [Expr.text_object style depth hne, Entry.anySpansLines_eq_any style (depth + 1) hbare]

/-- An object literal with a string that holds a line feed, and a call that is handed a closure with
a block. -/
def listening : Expr :=
  .object [.mk "first line" (.string "a\nb"), .mk "run"
    (.call (.identifier "each") [.keyword "string"]
      [.arrow ["item"] (.block [.returns (.identifier "item")])] {})]

/-- The block makes everything around it take several lines; the string takes one. -/
theorem hasLineEnd_iff_spansLines_closure :
    Unbroken listening.bareTexts ∧
      hasLineEnd (listening.text ⟨.tab, .carriageReturnLineFeed⟩ 1) = true := by
  have hbare : Unbroken listening.bareTexts := by decide
  exact ⟨hbare, (hasLineEnd_iff_spansLines listening hbare _ 1).1.mpr (by decide)⟩

end TypedRoutes
