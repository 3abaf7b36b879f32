import TypedRoutes.Proofs.Grammar.Lexing
import TypedRoutes.Proofs.Json.Containers

/-!
# Tokens of printed trees

The text of a readable tree has the tokens of the tree, in every layout and at every depth: line
ends and indentation only separate tokens, and no two tokens run together.
-/

namespace TypedRoutes

open Grammar

variable {letters : Alphabet} {held : Bool} {cs : List Char} {ts : List Token}

/-! ## Characters that end a token -/

namespace Grammar

/-- What a word goes on with, a number goes on with as well. -/
theorem wordGlue_of_numberGlue {c : Char} (h : letters.numberGlue c = false) :
    letters.wordGlue c = false := by
  rw [Alphabet.numberGlue, Bool.or_eq_false_iff] at h
  exact h.1

/-- A blank ends every token. -/
theorem numberGlue_blank {c : Char} (h : (isLineEnd c || isSpace c) = true) :
    letters.numberGlue c = false := by
  have hforeign : isForeign c = false := by
    rw [isForeign, Bool.and_assoc, ← Bool.not_or, h, Bool.not_true, Bool.and_false]
  have hpart : isIdentifierPart c = false := by
    rw [isIdentifierPart, Bool.or_eq_false_iff]
    constructor
    · by_contra hstart
      obtain ⟨hline, hspace⟩ := isBlank_of_isIdentifierStart (Bool.not_eq_false _ ▸ hstart)
      rw [hline, hspace] at h
      cases h
    · by_contra hdigit
      obtain ⟨-, hline, hspace⟩ : letters.isStart c = false ∧ _ :=
        isStart_digit (Bool.not_eq_false _ ▸ hdigit)
      rw [hline, hspace] at h
      cases h
  have hpoint : (c == '.') = false := by
    by_contra hpoint
    obtain rfl := beq_iff_eq.mp (Bool.not_eq_false _ ▸ hpoint)
    exact absurd h (by decide)
  rw [Alphabet.numberGlue, Alphabet.isPart, hforeign, hpart, hpoint]
  rfl

/-- What is blank and then a closing mark is glued to nothing. -/
theorem starts_blank {blank : List Char} {c : Char}
    (hblank : ∀ d ∈ blank, (isLineEnd d || isSpace d) = true) (hc : letters.numberGlue c = false)
    (rest : List Char) : Starts letters.numberGlue (blank ++ c :: rest) := by
  cases blank with
  | nil => exact ⟨c, rest, rfl, hc⟩
  | cons d blank => exact ⟨d, _, rfl, numberGlue_blank (hblank d (.head _))⟩

end Grammar

/-- The indentation of a line is blank. -/
theorem Style.isBlank_newLine (style : Style) (depth : Nat) :
    ∀ c ∈ (style.newLine depth).toList, (isLineEnd c || isSpace c) = true := by
  have hindent : ∀ c ∈ (String.join (List.replicate depth style.indent.text)).toList,
      (isLineEnd c || isSpace c) = true := by
    induction depth with
    | zero => simp [String.join]
    | succ depth ih =>
      rw [List.replicate_succ, String.join_cons, String.toList_append]
      exact List.forall_mem_append.mpr ⟨by cases style.indent <;> simp [Indent.text, isSpace], ih⟩
  rw [Style.newLine, String.toList_append]
  exact List.forall_mem_append.mpr
    ⟨by cases style.lineEnd <;> simp [LineEnd.text, isLineEnd], hindent⟩

/-! ## Expressions in their places -/

/-- What an expression goes on with: an expression that can be a target ends no number. -/
def Expr.glue (letters : Alphabet) (expr : Expr) : Char → Bool :=
  if memberStrength ≤ expr.strength && !expr.isNumber then letters.wordGlue else letters.numberGlue

/-- The text of an expression has its tokens. -/
def Expr.Spells (letters : Alphabet) (expr : Expr) (text : String) : Prop :=
  ∀ held, Grammar.Lexes letters held (expr.glue letters) text.toList expr.tokens

/-- What ends a number ends every expression. -/
theorem Expr.Spells.loose {expr : Expr} {text : String} (h : expr.Spells letters text)
    (held : Bool) :
    Grammar.Lexes letters held letters.numberGlue text.toList expr.tokens := by
  refine (h held).mono fun c hc => ?_
  rw [Expr.glue]
  split
  · exact wordGlue_of_numberGlue hc
  · exact hc

/-- A text that may stand in parentheses has its tokens if it has them without. -/
theorem lexes_grouped {glue : Char → Bool} {needed : Bool} {text : String}
    (h : ∀ held, Lexes letters held letters.numberGlue text.toList ts)
    (hbare : needed = false → Lexes letters held glue text.toList ts) :
    Lexes letters held glue (grouped needed text).toList (groupedTokens needed ts) := by
  cases needed with
  | false => exact hbare rfl
  | true =>
    have hgrouped : Lexes letters held unglued ('(' :: (text.toList ++ [')']))
        (.mark .openParen :: (ts ++ [.mark .closeParen])) :=
      ((h false).beforeMark ')' .closeParen (by decide)).behindMark (by simp) '(' .openParen
        (by decide)
    simp only [grouped, groupedTokens, if_true, String.toList_append, String.reduceToList,
      List.cons_append, List.nil_append]
    exact hgrouped.mono fun _ _ => rfl

/-- An operand has its tokens, in parentheses or without. -/
theorem Expr.Spells.operand {expr : Expr} {text : String} (h : expr.Spells letters text)
    (required : Nat) (held : Bool) :
    Grammar.Lexes letters held letters.numberGlue (expr.operandText required text).toList
      (groupedTokens (expr.strength < required) expr.tokens) :=
  lexes_grouped h.loose fun _ => h.loose held

/-- A target ends no number, so a point behind it is a point. -/
theorem Expr.Spells.target {expr : Expr} {text : String} (h : expr.Spells letters text)
    (hnumber : expr.isNumber = false) (held : Bool) :
    Grammar.Lexes letters held letters.wordGlue (expr.operandText memberStrength text).toList
      (groupedTokens (expr.strength < memberStrength) expr.tokens) := by
  refine lexes_grouped h.loose fun hneeded => ?_
  have hstrength : memberStrength ≤ expr.strength := Nat.le_of_not_lt (of_decide_eq_false hneeded)
  have hglue : expr.glue letters = letters.wordGlue := by
    rw [Expr.glue, decide_eq_true hstrength, hnumber]
    rfl
  rw [← hglue]
  exact h held

/-! ## First characters -/

/-- A name has a first character. -/
theorem Grammar.Alphabet.isName_cons {name : String} (h : letters.isName name = true) :
    ∃ c rest, name.toList = c :: rest ∧ letters.isStart c = true := by
  rw [Alphabet.isName] at h
  split at h
  · cases h
  · rename_i c rest hname
    simp only [Bool.and_eq_true] at h
    exact ⟨c, rest, hname, h.1.1⟩

/-- A name starts as names do. -/
theorem starts_name {glue : Char → Bool} {name : String} (h : letters.isName name = true)
    (hglue : ∀ c, letters.isStart c = true → glue c = false) : Starts glue name.toList := by
  obtain ⟨c, rest, hname, hc⟩ := Alphabet.isName_cons h
  exact ⟨c, rest, hname, hglue c hc⟩

/-- A text in parentheses starts with one. -/
theorem Grammar.Starts.grouped {glue : Char → Bool} {text : String} (h : Starts glue text.toList)
    (hparen : glue '(' = false) (needed : Bool) : Starts glue (grouped needed text).toList := by
  cases needed with
  | false => exact h
  | true =>
    rw [TypedRoutes.grouped, if_pos rfl, String.toList_append, String.toList_append]
    exact ⟨'(', _, rfl, hparen⟩

/-- A text starts as it does whatever follows. -/
theorem Grammar.Starts.append {glue : Char → Bool} {text : String} (h : Starts glue text.toList)
    (more : String) : Starts glue (text ++ more).toList := by
  obtain ⟨c, rest, htext, hc⟩ := h
  exact ⟨c, rest ++ more.toList, by rw [String.toList_append, htext]; rfl, hc⟩

/-- No expression starts with the equals sign that would go on with an exclamation mark. -/
theorem Expr.starts_text (style : Style) (depth : Nat) : ∀ {expr : Expr}, expr.Readable letters →
    Starts (· == '=') (expr.text style depth).toList
  | .identifier name, h => starts_name h fun c hc => by
    by_contra hequal
    obtain rfl := beq_iff_eq.mp (Bool.not_eq_false _ ▸ hequal)
    rw [Alphabet.isStart_of_lt (by decide)] at hc
    exact absurd hc (by decide)
  | .string value, _ => by
    rw [Expr.text, quoteText, String.toList_append, String.toList_append]
    exact ⟨'"', _, rfl, rfl⟩
  | .number value, h => by
    obtain ⟨c, rest, hmagnitude, hdigit⟩ := Json.exists_cons_of_scan (literalNumeral_spec h).1
    rw [Expr.text, Json.numberLiteral_of_isFinite h, String.toList_ofList, Decimal.signed]
    split
    · exact ⟨'-', _, rfl, rfl⟩
    · refine ⟨c, rest, hmagnitude, ?_⟩
      by_contra hequal
      obtain rfl := beq_iff_eq.mp (Bool.not_eq_false _ ▸ hequal)
      exact absurd hdigit (by decide)
  | .boolean value, _ => by cases value <;> simp [Expr.text, Starts]
  | .null, _ | .object [], _ => by simp [Expr.text, Starts]
  | .object (.mk _ _ :: _), _ => by
    rw [Expr.text, String.toList_append, String.toList_append, String.toList_append]
    exact ⟨'\x7b', _, rfl, rfl⟩
  | .array elements, _ => by
    rw [Expr.text, String.toList_append, String.toList_append]
    exact ⟨'[', _, rfl, rfl⟩
  | .arrow params body, _ => by
    rw [Expr.text, String.toList_append, String.toList_append, String.toList_append]
    exact ⟨'(', _, rfl, rfl⟩
  | .unary op operand, _ => by
    rw [Expr.text, String.toList_append]
    cases op with
    | not => exact ⟨'!', _, rfl, rfl⟩
    | typeOf => exact ⟨'t', _, rfl, rfl⟩
  | .property target name, h => by
    rw [Expr.text]
    exact (((Expr.starts_text style depth h.1).grouped rfl _).append _).append _
  | .element target index, h => by
    rw [Expr.text]
    exact ((((Expr.starts_text style depth h.1).grouped rfl _).append _).append _).append _
  | .call callee typeArguments arguments span, h => by
    rw [Expr.text]
    exact
      (((((Expr.starts_text style depth h.1).grouped rfl _).append _).append _).append _).append _
  | .binary op left right, h => by
    rw [Expr.text]
    exact
      (((((Expr.starts_text style depth h.1).grouped rfl _).append _).append _).append _).append _
  | .conditional condition whenTrue whenFalse, h => by
    rw [Expr.text]
    exact
      (((((Expr.starts_text style depth h.1).grouped rfl _).append _).append _).append _).append _

/-! ## The texts of trees -/

/-- A space ends a word. -/
theorem wordGlue_space : letters.wordGlue ' ' = false :=
  wordGlue_of_numberGlue (numberGlue_blank (by decide))

/-- A mark of a single character ends a word. -/
theorem wordGlue_single {c : Char} {mark : Mark} (h : (c, mark) ∈ singleMarks) :
    letters.wordGlue c = false :=
  wordGlue_of_numberGlue (numberGlue_single h)

/-- A point in front of a member name. -/
theorem lexes_member {name : String} (h : letters.isName name = true) :
    Lexes letters held letters.wordGlue ('.' :: name.toList) [.mark .dot, .name name] := by
  refine lexes_dot.append (lexes_name h) (starts_name h fun c hc => ?_)
  rw [Bool.or_eq_false_iff]
  constructor
  · by_contra hdigit
    rw [(isStart_digit (Bool.not_eq_false _ ▸ hdigit)).1] at hc
    cases hc
  · by_contra hpoint
    obtain rfl := beq_iff_eq.mp (Bool.not_eq_false _ ▸ hpoint)
    rw [Alphabet.isStart_of_lt (by decide)] at hc
    exact absurd hc (by decide)

/-- Names between commas, in front of a text that starts with a closing parenthesis. -/
theorem lexes_params {glue : Char → Bool}
    (hbehind : ∀ held, Lexes letters held glue (')' :: cs) ts) :
    ∀ {params : List String}, (∀ param ∈ params, letters.isName param = true) → ∀ held,
      Lexes letters held glue ((separated ", " params).toList ++ ')' :: cs)
        (paramTokens params ++ ts)
  | [], _, held => hbehind held
  | [param], h, held =>
    (lexes_name (h param (.head _))).append (hbehind false)
      ⟨')', cs, rfl, wordGlue_single (by decide : (')', Mark.closeParen) ∈ singleMarks)⟩
  | param :: next :: others, h, held => by
    have hmore := lexes_params hbehind (fun other hmem => h other (.tail _ hmem)) false
    have hcomma : Lexes letters false glue (',' :: ' ' ::
        ((separated ", " (next :: others)).toList ++ ')' :: cs))
        (.mark .comma :: (paramTokens (next :: others) ++ ts)) :=
      hmore.behindSpace.behindMark (by simp) ',' .comma (by decide)
    have hparam : Lexes letters held letters.wordGlue param.toList [.name param] :=
      lexes_name (h param (.head _))
    have hall := hparam.append hcomma
      ⟨',', _, rfl, wordGlue_single (by decide : (',', Mark.comma) ∈ singleMarks)⟩
    simpa [Json.toList_separated, paramTokens] using hall

/-- An entry in front of what follows it. -/
theorem lexes_entry {value : Expr} {text lead : String} (key : String)
    (hvalue : value.Spells letters text)
    (hlead : ∀ c ∈ lead.toList, (isLineEnd c || isSpace c) = true)
    (hbehind : Lexes letters false unglued cs ts) (hstarts : Starts letters.numberGlue cs) :
    Lexes letters false unglued
      ((lead ++ (keyText key ++ ": " ++ text)).toList ++ cs)
      (keyToken key :: .mark .colon :: (value.tokens ++ ts)) := by
  have hpair := ((hvalue.loose false).append hbehind hstarts).behindSpace
  have hentry : Lexes letters false unglued _ _ := (lexes_key key).append hpair ⟨' ', _, rfl, rfl⟩
  have hblank := hentry.behindBlank hlead
  simpa using hblank

/-- A condition in front of a block. -/
theorem lexes_condition {condition : Expr} {text : String}
    (hcondition : condition.Spells letters text)
    (hbehind : Lexes letters false unglued cs ts) :
    Lexes letters held unglued (("if (" ++ text ++ ") ").toList ++ cs)
      (.keyword .branch :: .mark .openParen :: (condition.tokens ++ .mark .closeParen :: ts)) := by
  have hclose : Lexes letters false unglued _ _ :=
    hbehind.behindSpace.behindMark (by simp) ')' .closeParen (by decide)
  have hparens : Lexes letters false unglued _ _ :=
    ((hcondition.loose false).append hclose
      ⟨')', _, rfl,
        numberGlue_single (by decide : (')', Mark.closeParen) ∈ singleMarks)⟩).behindMark
        (by simp) '(' .openParen (by decide)
  have hword : Lexes letters held letters.wordGlue "if".toList [.keyword .branch] :=
    lexes_identifier (by decide) (by decide)
  have hall := hword.append hparens.behindSpace ⟨' ', _, rfl, wordGlue_space⟩
  simp only [String.toList_append, String.reduceToList, List.append_assoc, List.cons_append,
    List.nil_append] at hall ⊢
  exact hall

variable (style : Style)

/-- What follows an entry is glued to no value. -/
theorem starts_moreEntries {lead close : String} (depth : Nat)
    (hclose : ∀ c ∈ close.toList, (isLineEnd c || isSpace c) = true) (entries : List Entry) :
    Starts letters.numberGlue
      (((Entry.texts style depth lead entries).flatMap fun text => ',' :: text.toList) ++
        (close.toList ++ ['\x7d'])) := by
  cases entries with
  | nil =>
    exact starts_blank hclose
      (numberGlue_single (by decide : ('\x7d', Mark.closeBrace) ∈ singleMarks)) []
  | cons entry rest =>
    cases entry
    exact ⟨',', _, rfl, numberGlue_single (by decide : (',', Mark.comma) ∈ singleMarks)⟩

/-- What follows an item is glued to no item. -/
theorem starts_moreItems (texts : List String) {c : Char} {mark : Mark}
    (hmark : (c, mark) ∈ singleMarks) :
    Starts letters.numberGlue ((texts.flatMap fun text => ',' :: ' ' :: text.toList) ++ [c]) := by
  cases texts with
  | nil => exact ⟨c, [], rfl, numberGlue_single hmark⟩
  | cons text rest =>
    exact ⟨',', _, rfl, numberGlue_single (by decide : (',', Mark.comma) ∈ singleMarks)⟩

/-- Whatever follows a token that is complete starts another one. -/
theorem starts_unglued (hne : cs ≠ []) : Starts unglued cs := by
  obtain ⟨c, rest, rfl⟩ := List.exists_cons_of_ne_nil hne
  exact ⟨c, rest, rfl, rfl⟩

/-- A text that starts with a space is glued to nothing. -/
theorem starts_space (cs : List Char) : Starts letters.numberGlue (' ' :: cs) :=
  ⟨' ', cs, rfl, numberGlue_blank (by decide)⟩

/-! ## One form of expression

The text of one form has its tokens if the texts of its parts have theirs. -/

namespace Expr.Spells

variable {style} {depth : Nat}

/-- A member access. -/
theorem property {target : Expr} {name : String}
    (h : target.Spells letters (target.text style depth))
    (hnumber : target.isNumber = false) (hname : letters.isName name = true) :
    (Expr.property target name).Spells letters ((Expr.property target name).text style depth) := by
  intro held
  have hpoint : letters.wordGlue '.' = false := Alphabet.isPart_of_lt (by decide)
  rw [Expr.text, Expr.tokens]
  simp only [String.toList_append, String.reduceToList, List.append_assoc, List.cons_append,
    List.nil_append]
  exact (h.target hnumber held).append (lexes_member hname) ⟨'.', _, rfl, hpoint⟩

/-- An access by index. -/
theorem element {target index : Expr} (h : target.Spells letters (target.text style depth))
    (hnumber : target.isNumber = false) (hindex : index.Spells letters (index.text style depth)) :
    (Expr.element target index).Spells letters ((Expr.element target index).text style depth) := by
  intro held
  have hbrackets : Lexes letters false unglued _ _ :=
    ((hindex.loose false).beforeMark ']' .closeBracket (by decide)).behindMark (by simp) '['
      .openBracket (by decide)
  rw [Expr.text, Expr.tokens]
  simp only [String.toList_append, String.reduceToList, List.append_assoc, List.cons_append,
    List.nil_append]
  exact ((h.target hnumber held).append hbrackets
    ⟨'[', _, rfl, wordGlue_single (by decide : ('[', Mark.openBracket) ∈ singleMarks)⟩).mono
      fun _ _ => rfl

/-- A call without type arguments. -/
theorem call {callee : Expr} {arguments : List Expr} {span : Span}
    (h : callee.Spells letters (callee.text style depth)) (hnumber : callee.isNumber = false)
    (harguments : Lexes letters false unglued
      ((separated ", " (Expr.texts style depth arguments)).toList ++ [')'])
      (Expr.itemTokens arguments ++ [.mark .closeParen])) :
    (Expr.call callee [] arguments span).Spells letters
      ((Expr.call callee [] arguments span).text style depth) := by
  intro held
  have hparens : Lexes letters false unglued _ _ :=
    harguments.behindMark (by simp) '(' .openParen (by decide)
  rw [Expr.text, Expr.tokens]
  simp only [typeArgumentsText, String.toList_append, String.reduceToList, List.append_assoc,
    List.cons_append, List.nil_append]
  exact ((h.target hnumber held).append hparens
    ⟨'(', _, rfl, wordGlue_single (by decide : ('(', Mark.openParen) ∈ singleMarks)⟩).mono
      fun _ _ => rfl

/-- An object without entries. -/
theorem emptyObject : (Expr.object []).Spells letters ((Expr.object []).text style depth) := by
  intro held
  have hclose : Lexes letters false unglued ['\x7d'] [.mark .closeBrace] := lexes_single (by decide)
  have hbraces : Lexes letters held unglued _ _ :=
    hclose.behindMark (by simp) '\x7b' .openBrace (by decide)
  rw [Expr.text, Expr.tokens]
  simp only [String.reduceToList]
  exact hbraces.mono fun _ _ => rfl

/-- An object with entries, on one line or on lines of their own. -/
theorem object {key : String} {value : Expr} {rest : List Entry}
    (h : value.Spells letters (value.text style (depth + 1)))
    (hrest : ∀ {lead close : String}, (∀ c ∈ lead.toList, (isLineEnd c || isSpace c) = true) →
      (∀ c ∈ close.toList, (isLineEnd c || isSpace c) = true) →
        Lexes letters false unglued
          (((Entry.texts style (depth + 1) lead rest).flatMap fun text => ',' :: text.toList) ++
            (close.toList ++ ['\x7d']))
          (Entry.moreTokens rest ++ [.mark .closeBrace])) :
    (Expr.object (.mk key value :: rest)).Spells letters
      ((Expr.object (.mk key value :: rest)).text style depth) := by
  intro held
  rw [Expr.text]
  generalize hlines : (value.spansLines || Entry.anySpansLines rest) = lines
  have hlead : ∀ c ∈ (if lines then style.newLine (depth + 1) else " ").toList,
      (isLineEnd c || isSpace c) = true := by
    cases lines with
    | true => exact style.isBlank_newLine (depth + 1)
    | false => simp [isSpace]
  have hclose : ∀ c ∈ (if lines then style.newLine depth else " ").toList,
      (isLineEnd c || isSpace c) = true := by
    cases lines with
    | true => exact style.isBlank_newLine depth
    | false => simp [isSpace]
  have hfirst := lexes_entry key h hlead (hrest hlead hclose)
    (starts_moreEntries style (depth + 1) hclose rest)
  have hobject : Lexes letters held unglued _ _ :=
    hfirst.behindMark (by simp) '\x7b' .openBrace (by decide)
  rw [Expr.tokens, Entry.itemTokens]
  simp only [String.toList_append, Json.toList_separated, String.reduceToList, List.append_assoc,
    List.cons_append, List.nil_append] at hobject ⊢
  exact hobject.mono fun _ _ => rfl

/-- An array. -/
theorem array {elements : List Expr}
    (h : Lexes letters false unglued
      ((separated ", " (Expr.texts style depth elements)).toList ++ [']'])
      (Expr.itemTokens elements ++ [.mark .closeBracket])) :
    (Expr.array elements).Spells letters ((Expr.array elements).text style depth) := by
  intro held
  have hitems : Lexes letters held unglued _ _ :=
    h.behindMark (by simp) '[' .openBracket (by decide)
  rw [Expr.text, Expr.tokens]
  simp only [String.toList_append, String.reduceToList, List.cons_append, List.nil_append]
  exact hitems.mono fun _ _ => rfl

/-- A closure. -/
theorem arrow {params : List String} {body : Body}
    (hparams : ∀ param ∈ params, letters.isName param = true)
    (h : ∀ held, Lexes letters held letters.numberGlue (body.text style depth).toList body.tokens) :
    (Expr.arrow params body).Spells letters ((Expr.arrow params body).text style depth) := by
  intro held
  have hbody (held : Bool) : Lexes letters held letters.numberGlue _ _ := (h _).behindArrow
  have harrow : Lexes letters held letters.numberGlue _ _ :=
    (lexes_params hbody hparams false).behindMark (by simp) '(' .openParen (by decide)
  rw [Expr.text, Expr.tokens]
  simp only [String.toList_append, String.reduceToList, List.append_assoc, List.cons_append,
    List.nil_append]
  exact harrow

/-- A negation: no operand starts with the sign that would make another mark of the exclamation
mark. -/
theorem not {operand : Expr} (h : operand.Spells letters (operand.text style depth))
    (hreadable : operand.Readable letters) :
    (Expr.unary .not operand).Spells letters ((Expr.unary .not operand).text style depth) := by
  intro held
  rw [Expr.text, Expr.tokens, String.toList_append]
  exact lexes_not.append (h.operand unaryStrength false)
    ((Expr.starts_text style depth hreadable).grouped rfl _)

/-- A test of the run-time type. -/
theorem typeOf {operand : Expr} (h : operand.Spells letters (operand.text style depth)) :
    (Expr.unary .typeOf operand).Spells letters
      ((Expr.unary .typeOf operand).text style depth) := by
  intro held
  have hword : Lexes letters held letters.wordGlue "typeof".toList [.keyword .typeOf] :=
    lexes_identifier (by decide) (by decide)
  rw [Expr.text, Expr.tokens, String.toList_append]
  exact hword.append (h.operand unaryStrength false).behindSpace ⟨' ', _, rfl, wordGlue_space⟩

/-- An operator between its operands. -/
theorem binary {op : BinaryOp} {left right : Expr}
    (hleft : left.Spells letters (left.text style depth))
    (hright : right.Spells letters (right.text style depth)) :
    (Expr.binary op left right).Spells letters ((Expr.binary op left right).text style depth) := by
  intro held
  have hoperator : Lexes letters false letters.numberGlue _ _ :=
    (hright.operand (op.strength + 1) false).behindSpaced (lexes_operator op)
  have hglue : (Expr.binary op left right).glue letters = letters.numberGlue := by
    cases op <;> rfl
  rw [hglue, Expr.text, Expr.tokens]
  simp only [String.toList_append, String.reduceToList, List.append_assoc, List.cons_append,
    List.nil_append]
  exact (hleft.operand op.strength held).append hoperator (starts_space _)

/-- A conditional. -/
theorem conditional {condition whenTrue whenFalse : Expr}
    (hcondition : condition.Spells letters (condition.text style depth))
    (htrue : whenTrue.Spells letters (whenTrue.text style depth))
    (hfalse : whenFalse.Spells letters (whenFalse.text style depth)) :
    (Expr.conditional condition whenTrue whenFalse).Spells letters
      ((Expr.conditional condition whenTrue whenFalse).text style depth) := by
  intro held
  have hcolon : Lexes letters false letters.numberGlue _ _ :=
    (hfalse.operand conditionalStrength false).behindSpaced
      (lexes_operatorMark (by decide : ([':'], Mark.colon) ∈ operatorMarks))
  have hquestion : Lexes letters false letters.numberGlue _ _ :=
    ((htrue.operand conditionalStrength false).append hcolon (starts_space _)).behindSpaced
      (lexes_operatorMark (by decide : (['?'], Mark.question) ∈ operatorMarks))
  have hall := (hcondition.operand (conditionalStrength + 1) held).append hquestion (starts_space _)
  rw [Expr.text, Expr.tokens]
  simp only [String.toList_append, String.reduceToList, List.append_assoc, List.cons_append,
    List.nil_append] at hall ⊢
  exact hall

end Expr.Spells

/-! ## All trees -/

mutual

/-- The text of a readable expression has its tokens. -/
theorem Expr.lexes_text : ∀ (depth : Nat) {expr : Expr}, expr.Readable letters →
    expr.Spells letters (expr.text style depth)
  | _, .identifier name, h => fun _ => lexes_name h
  | _, .string value, _ => fun _ => (lexes_quoteText value).mono fun _ _ => rfl
  | _, .number value, h => fun held => by
    have hglue : (Expr.number value).glue letters = letters.numberGlue := by
      rw [Expr.glue, Expr.isNumber, Bool.not_true, Bool.and_false]
      rfl
    rw [hglue]
    exact lexes_numberLiteral h
  | _, .boolean true, _ => fun _ =>
    (lexes_identifier (by decide) (by decide) : Lexes _ _ _ "true".toList _)
  | _, .boolean false, _ => fun _ =>
    (lexes_identifier (by decide) (by decide) : Lexes _ _ _ "false".toList _)
  | _, .null, _ => fun _ =>
    (lexes_identifier (by decide) (by decide) : Lexes _ _ _ "null".toList _)
  | depth, .property _ _, h => (Expr.lexes_text depth h.1).property h.2.1 h.2.2
  | depth, .element _ _, h =>
    (Expr.lexes_text depth h.1).element h.2.1 (Expr.lexes_text depth h.2.2)
  | depth, .call callee [] arguments _, h =>
    (Expr.lexes_text depth h.1).call h.2.1
      (Expr.lexes_items depth h.2.2.2 ')' .closeParen (by decide))
  | _, .call _ (_ :: _) _ _, h => absurd h.2.2.1 (List.cons_ne_nil _ _)
  | _, .object [], _ => Expr.Spells.emptyObject
  | depth, .object (.mk _ _ :: _), h =>
    (Expr.lexes_text (depth + 1) h.1).object (Entry.lexes_more (depth + 1) h.2)
  | depth, .array _, h => .array (Expr.lexes_items depth h ']' .closeBracket (by decide))
  | depth, .arrow _ _, h => .arrow h.1 fun _ => Body.lexes_text depth h.2
  | depth, .unary .not operand, (h : operand.Readable letters) => (Expr.lexes_text depth h).not h
  | depth, .unary .typeOf operand, (h : operand.Readable letters) =>
      (Expr.lexes_text depth h).typeOf
  | depth, .binary _ _ _, h => (Expr.lexes_text depth h.1).binary (Expr.lexes_text depth h.2)
  | depth, .conditional _ _ _, h =>
    (Expr.lexes_text depth h.1).conditional (Expr.lexes_text depth h.2.1)
      (Expr.lexes_text depth h.2.2)

/-- Items between commas, in front of a closing mark. -/
theorem Expr.lexes_items : ∀ (depth : Nat) {exprs : List Expr}, Expr.AllReadable letters exprs →
    ∀ {held : Bool} (c : Char) (mark : Mark), (c, mark) ∈ singleMarks →
      Lexes letters held unglued ((separated ", " (Expr.texts style depth exprs)).toList ++ [c])
        (Expr.itemTokens exprs ++ [.mark mark])
  | _, [], _, _, c, mark, hmark => lexes_single hmark
  | depth, first :: rest, h, held, c, mark, hmark => by
    have hmore := Expr.lexes_more depth h.2 c mark hmark
    have hall := ((Expr.lexes_text depth h.1).loose held).append hmore (starts_moreItems _ hmark)
    rw [Expr.texts, Expr.itemTokens, Json.toList_separated]
    simp only [String.reduceToList, List.append_assoc, List.cons_append, List.nil_append] at hall ⊢
    exact hall

/-- Items behind a comma each, in front of a closing mark. -/
theorem Expr.lexes_more : ∀ (depth : Nat) {exprs : List Expr}, Expr.AllReadable letters exprs →
    ∀ (c : Char) (mark : Mark), (c, mark) ∈ singleMarks →
      Lexes letters false unglued
        (((Expr.texts style depth exprs).flatMap fun text => ',' :: ' ' :: text.toList) ++ [c])
        (Expr.moreTokens exprs ++ [.mark mark])
  | _, [], _, c, mark, hmark => lexes_single hmark
  | depth, next :: rest, h, c, mark, hmark => by
    have hmore := Expr.lexes_more depth h.2 c mark hmark
    have hnext : Lexes letters false unglued _ _ :=
      (((Expr.lexes_text depth h.1).loose false).append hmore
        (starts_moreItems _ hmark)).behindSpace.behindMark (by simp) ',' .comma (by decide)
    rw [Expr.texts, Expr.moreTokens, List.flatMap_cons]
    simp only [List.append_assoc, List.cons_append] at hnext ⊢
    exact hnext

/-- Entries behind a comma each, in front of a closing brace. -/
theorem Entry.lexes_more : ∀ (depth : Nat) {entries : List Entry},
    Entry.AllReadable letters entries → ∀ {lead close : String},
      (∀ c ∈ lead.toList, (isLineEnd c || isSpace c) = true) →
      (∀ c ∈ close.toList, (isLineEnd c || isSpace c) = true) →
        Lexes letters false unglued
          (((Entry.texts style depth lead entries).flatMap fun text => ',' :: text.toList) ++
            (close.toList ++ ['\x7d']))
          (Entry.moreTokens entries ++ [.mark .closeBrace])
  | _, [], _, _, _, _, hclose => (lexes_single (by decide)).behindBlank hclose
  | depth, .mk key value :: rest, h, lead, close, hlead, hclose => by
    have hmore := Entry.lexes_more depth h.2 hlead hclose
    have hentry : Lexes letters false unglued _ _ :=
      (lexes_entry key (Expr.lexes_text depth h.1) hlead hmore
        (starts_moreEntries style depth hclose rest)).behindMark (by simp) ',' .comma (by decide)
    rw [Entry.texts, Entry.moreTokens, List.flatMap_cons]
    simp only [List.append_assoc, List.cons_append] at hentry ⊢
    exact hentry

/-- The text of a readable body has its tokens. -/
theorem Body.lexes_text : ∀ (depth : Nat) {body : Body}, body.Readable letters →
    ∀ {held : Bool}, Lexes letters held letters.numberGlue (body.text style depth).toList
    body.tokens
  | depth, .concise value, h, held => by
    have hvalue := Expr.lexes_text depth h.1
    have htext : (Body.concise value).text style depth = grouped
        (value.isObject || value.strength < conditionalStrength) (value.text style depth) := by
      rw [Body.text]
      cases value.isObject <;> rfl
    rw [htext, Body.tokens]
    exact lexes_grouped hvalue.loose fun _ => hvalue.loose held
  | depth, .block statements, h, held => by
    rw [Body.text, Body.tokens]
    exact (Stmt.lexes_block depth h).mono fun _ _ => rfl

/-- The text of a block of readable statements has its tokens. -/
theorem Stmt.lexes_block : ∀ (depth : Nat) {stmts : List Stmt}, Stmt.AllReadable letters stmts →
    ∀ {held : Bool}, Lexes letters held unglued (Stmt.blockText style depth stmts).toList
      (.mark .openBrace :: (Stmt.allTokens stmts ++ [.mark .closeBrace]))
  | _, [], _, held => by
    have hclose : Lexes letters false unglued ['\x7d'] [.mark .closeBrace] :=
      lexes_single (by decide)
    rw [Stmt.blockText]
    simp only [String.reduceToList]
    exact hclose.behindMark (by simp) '\x7b' .openBrace (by decide)
  | depth, first :: rest, h, held => by
    have hlines := Stmt.lexes_lines (depth + 1) h.2 (style.isBlank_newLine depth)
    have hfirst : Lexes letters false unglued _ _ :=
      (Stmt.lexes_text (depth + 1) h.1).append hlines (starts_unglued (by simp))
    have hblock : Lexes letters held unglued _ _ :=
      (hfirst.behindBlank (style.isBlank_newLine (depth + 1))).behindMark (by simp) '\x7b'
        .openBrace (by decide)
    rw [Stmt.blockText, Stmt.allTokens]
    simp only [String.toList_append, String.reduceToList, List.append_assoc, List.cons_append,
      List.nil_append] at hblock ⊢
    exact hblock

/-- Statements on a line each, in front of a closing brace. -/
theorem Stmt.lexes_lines : ∀ (depth : Nat) {stmts : List Stmt}, Stmt.AllReadable letters stmts →
    ∀ {close : List Char}, (∀ c ∈ close, (isLineEnd c || isSpace c) = true) →
      Lexes letters false unglued
        ((String.join (Stmt.lines style depth stmts)).toList ++ (close ++ ['\x7d']))
        (Stmt.allTokens stmts ++ [.mark .closeBrace])
  | _, [], _, close, hclose => (lexes_single (by decide)).behindBlank hclose
  | depth, first :: rest, h, close, hclose => by
    have hmore := Stmt.lexes_lines depth h.2 hclose
    have hfirst : Lexes letters false unglued _ _ :=
      (Stmt.lexes_text depth h.1).append hmore (starts_unglued (by simp))
    have hline := hfirst.behindBlank (style.isBlank_newLine depth)
    rw [Stmt.lines, Stmt.allTokens, String.join_cons]
    simp only [String.toList_append, List.append_assoc] at hline ⊢
    exact hline

/-- The text of a readable statement has its tokens. -/
theorem Stmt.lexes_text : ∀ (depth : Nat) {stmt : Stmt}, stmt.Readable letters →
    ∀ {held : Bool}, Lexes letters held unglued (stmt.text style depth).toList stmt.tokens
  | depth, .const name value, h, held => by
    have hvalue := ((Expr.lexes_text depth h.2).loose false).beforeMark ';' .semicolon (by decide)
    have hassign : Lexes letters false unglued _ _ :=
      hvalue.behindSpaced (lexes_operatorMark (by decide : (['='], Mark.assign) ∈ operatorMarks))
    have hname : Lexes letters false unglued _ _ :=
      (lexes_name h.1).append hassign ⟨' ', _, rfl, wordGlue_space⟩
    have hword : Lexes letters held letters.wordGlue "const".toList [.keyword .const] :=
      lexes_identifier (by decide) (by decide)
    have hall := hword.append hname.behindSpace ⟨' ', _, rfl, wordGlue_space⟩
    rw [Stmt.text, Stmt.tokens]
    simp only [String.toList_append, String.reduceToList, List.append_assoc, List.cons_append,
      List.nil_append] at hall ⊢
    exact hall
  | depth, .branch condition consequent [], h, held => by
    have hall : Lexes letters held unglued _ _ :=
      lexes_condition (Expr.lexes_text depth h.1) (Stmt.lexes_block depth h.2.1)
    rw [Stmt.text, Stmt.tokens]
    simp only [List.isEmpty_nil, if_true, String.append_empty, String.toList_append] at hall ⊢
    exact hall
  | depth, .branch condition consequent (first :: rest), h, held => by
    have hotherwise : Lexes letters false unglued _ _ := Stmt.lexes_block depth h.2.2
    have hword : Lexes letters false letters.wordGlue "else".toList [.keyword .alternative] :=
      lexes_identifier (by decide) (by decide)
    have helse := (hword.append hotherwise.behindSpace ⟨' ', _, rfl, wordGlue_space⟩).behindSpace
    have hblocks : Lexes letters false unglued _ _ :=
      (Stmt.lexes_block depth h.2.1).append helse (starts_unglued (by simp))
    have hall : Lexes letters held unglued _ _ :=
      lexes_condition (Expr.lexes_text depth h.1) hblocks
    rw [Stmt.text, Stmt.tokens]
    simp only [List.isEmpty_cons, Bool.false_eq_true, if_false, String.toList_append,
      String.reduceToList, List.append_assoc, List.cons_append, List.nil_append,
      Stmt.allTokens] at hall ⊢
    exact hall
  | depth, .returns value, (h : value.Readable letters), held => by
    have hvalue := ((Expr.lexes_text depth h).loose true).beforeMark ';' .semicolon (by decide)
    have hall : Lexes letters held unglued _ _ :=
      hvalue.behindHeld (by decide : isIdentifier "return" = true) (by decide)
    rw [Stmt.text, Stmt.tokens]
    simp only [String.toList_append, String.reduceToList, List.cons_append,
      List.nil_append] at hall ⊢
    exact hall
  | depth, .throws value, (h : value.Readable letters), held => by
    have hvalue := ((Expr.lexes_text depth h).loose true).beforeMark ';' .semicolon (by decide)
    have hall : Lexes letters held unglued _ _ :=
      hvalue.behindHeld (by decide : isIdentifier "throw" = true) (by decide)
    rw [Stmt.text, Stmt.tokens]
    simp only [String.toList_append, String.reduceToList, List.cons_append,
      List.nil_append] at hall ⊢
    exact hall
  | depth, .expression value, h, held => by
    have hvalue := Expr.lexes_text depth h.1
    have hgrouped : Lexes letters held letters.numberGlue _ _ :=
      lexes_grouped hvalue.loose fun _ : value.isObject = false => hvalue.loose held
    rw [Stmt.text, Stmt.tokens, String.toList_append]
    exact hgrouped.beforeMark ';' .semicolon (by decide)

end

end TypedRoutes
