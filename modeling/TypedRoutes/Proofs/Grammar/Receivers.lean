import TypedRoutes.Proofs.Grammar.RoundTrip
import TypedRoutes.Proofs.Types.Words

/-!
# Numbers in front of accesses and calls

A number that something is taken from, or that is called, stands in parentheses when it is below
zero, and bare otherwise. Behind a bare literal a point belongs to the number, unless the literal
has one, and the sign of negative zero is written although it is not below zero. So a member is read
back from the numbers below zero and from those with a point, an item and a call from all but
negative zero.
-/

namespace TypedRoutes

open Grammar

variable {letters : Alphabet} {style : Style} {n : Float}

/-! ## Expressions that are read back anywhere -/

/-- The expression is read back from its text wherever it stands: the text has tokens, whatever
follows that is not glued to it, and they are read as the expression in front of all that closes
one. -/
def Expr.ReadsBack (letters : Alphabet) (style : Style) (expr : Expr) : Prop :=
  ∃ ts, Lexes letters false letters.numberGlue (expr.print style).toList ts ∧
    ReadsAssignment ts expr.withoutSpans

theorem Grammar.expression?_of_tokens {text : String} {ts : List Token} {x : Expr}
    (htokens : tokens? letters false false text.toList = some ts) (h : ReadsAssignment ts x) :
    expression? letters text = some x := by
  have hread := h [] nofun
  rw [List.append_nil] at hread
  rw [expression?, htokens]
  simp only [Option.bind_eq_bind, Option.bind_some, hread]
  rfl

/-- What can be read at all is read back wherever it stands. -/
theorem Expr.Readable.readsBack {expr : Expr} (h : expr.Readable letters) (style : Style) :
    expr.ReadsBack letters style :=
  ⟨expr.tokens, (Expr.lexes_text style 0 h).loose false, (Expr.isRead h).assignment⟩

theorem Expr.ReadsBack.expression? {expr : Expr} (h : expr.ReadsBack letters style) :
    expression? letters (expr.print style) = some expr.withoutSpans := by
  obtain ⟨ts, hlexes, hreads⟩ := h
  exact expression?_of_tokens hlexes.whole hreads

/-- What is read as an expression starts with no closing parenthesis. -/
theorem Grammar.ReadsAssignment.exists_cons {ts : List Token} {x : Expr}
    (h : ReadsAssignment ts x) :
    ∃ token rest, ts = token :: rest ∧ token ≠ .mark .closeParen := by
  obtain ⟨token, rest, rfl⟩ := List.exists_cons_of_ne_nil h.ne_nil
  refine ⟨token, rest, rfl, ?_⟩
  rintro rfl
  have hread := h [] nofun
  rw [List.append_nil, assignment?_eq_conditional? rfl, conditional?_none] at hread
  · cases hread
  · rw [unary?, member?_none]
    · rw [primary?] <;> simp
    all_goals simp

/-- Arguments behind commas, up to the closing parenthesis. -/
theorem Expr.ReadsBack.more {exprs : List Expr} (h : ∀ expr ∈ exprs, expr.ReadsBack letters style) :
    ∃ ts, Lexes letters false unglued
        (((Expr.texts style 0 exprs).flatMap fun text => ',' :: ' ' :: text.toList) ++ [')'])
        (ts ++ [.mark .closeParen]) ∧
      ∀ rest, Closed (ts ++ .mark .closeParen :: rest) ∧
        moreItems? .closeParen (ts ++ .mark .closeParen :: rest) =
          some (Expr.allWithoutSpans exprs, rest) := by
  induction exprs with
  | nil =>
    refine ⟨[], lexes_single (by decide), fun rest => ⟨closed_cons (by simp), ?_⟩⟩
    rw [List.nil_append, moreItems?, if_pos rfl]
    rfl
  | cons next others ih =>
    obtain ⟨⟨ts, hlexes, hreads⟩, hothers⟩ := List.forall_mem_cons.mp h
    obtain ⟨more, hmore, hmoreReads⟩ := ih hothers
    refine ⟨.mark .comma :: (ts ++ more), ?_, fun rest => ⟨closed_cons (by simp), ?_⟩⟩
    · have hclose : (')', Mark.closeParen) ∈ singleMarks := by decide
      have hnext : Lexes letters false unglued _ _ :=
        (hlexes.append hmore (starts_moreItems _ hclose)).behindSpace.behindMark (by simp) ','
          .comma (by decide)
      rw [Expr.texts, List.flatMap_cons]
      simp only [List.append_assoc, List.cons_append] at hnext ⊢
      exact hnext
    · obtain ⟨hclosed, hitems⟩ := hmoreReads rest
      rw [List.cons_append, List.append_assoc, moreItems?, if_neg (by decide), if_pos rfl,
        hreads _ hclosed, shorter?_some (length_behind hreads.ne_nil)]
      simp only [Option.bind_eq_bind, Option.bind_some, hitems]
      rfl

/-- Arguments between parentheses. -/
theorem Expr.ReadsBack.items {exprs : List Expr}
    (h : ∀ expr ∈ exprs, expr.ReadsBack letters style) :
    ∃ ts, Lexes letters false unglued ((separated ", " (Expr.texts style 0 exprs)).toList ++ [')'])
        (ts ++ [.mark .closeParen]) ∧
      ∀ rest, items? .closeParen (ts ++ .mark .closeParen :: rest) =
        some (Expr.allWithoutSpans exprs, rest) := by
  cases exprs with
  | nil =>
    refine ⟨[], lexes_single (by decide), fun rest => ?_⟩
    rw [List.nil_append, items?, if_pos rfl]
    rfl
  | cons first others =>
    obtain ⟨⟨ts, hlexes, hreads⟩, hothers⟩ := List.forall_mem_cons.mp h
    obtain ⟨more, hmore, hmoreReads⟩ := Expr.ReadsBack.more hothers
    refine ⟨ts ++ more, ?_, fun rest => ?_⟩
    · have hclose : (')', Mark.closeParen) ∈ singleMarks := by decide
      have hall := hlexes.append hmore (starts_moreItems _ hclose)
      rw [Expr.texts, Json.toList_separated]
      simp only [String.reduceToList, List.append_assoc, List.cons_append,
        List.nil_append] at hall ⊢
      exact hall
    · obtain ⟨hclosed, hitems⟩ := hmoreReads rest
      have hfirst := hreads _ hclosed
      obtain ⟨token, behind, rfl, hne⟩ := hreads.exists_cons
      rw [List.cons_append] at hfirst
      rw [List.append_assoc, List.cons_append, items?, if_neg hne, hfirst,
        shorter?_some (Nat.lt_of_le_of_lt (by simp) (Nat.lt_succ_self _))]
      simp only [Option.bind_eq_bind, Option.bind_some, hitems]
      rfl

/-! ## Numbers as targets -/

theorem memberName?_wordToken (name : String) : (wordToken name).memberName? = some name := by
  rw [wordToken]
  split
  · rename_i word hword
    exact congrArg some (Keyword.text_eq hword)
  · rfl

/-- A point and a word, reserved or not, at the end of a text. -/
theorem tokens?_member {name : String} (h : letters.isWord name = true) :
    tokens? letters false false ('.' :: name.toList) = some [.mark .dot, wordToken name] := by
  obtain ⟨c, rest, hname, hc, hrest⟩ := Alphabet.isWord_cons h
  have hends : Ends (fun c => c.isDigit || c == '.') (c :: rest) := by
    rintro _ ⟨⟩
    rw [Bool.or_eq_false_iff, beq_eq_false_iff_ne]
    constructor
    · by_contra hdigit
      rw [(isStart_digit (Bool.not_eq_false _ ▸ hdigit)).1] at hc
      cases hc
    · rintro rfl
      rw [Alphabet.isStart_of_lt (by decide)] at hc
      exact absurd hc (by decide)
  have hnone : Ends letters.wordGlue [] := nofun
  have hword := tokens?_word hc hrest (rfl : (false && false) = false) hnone
  rw [List.append_nil, ← hname, String.ofList_toList, tokens?] at hword
  have hdot : Lexes letters false (fun c => c.isDigit || c == '.') ['.'] [.mark .dot] := lexes_dot
  have hboth := hdot false rfl (c :: rest) hends
  rw [← hname, hword] at hboth
  exact hboth

/-- A number is put in parentheses in front of an access when it is below zero. -/
theorem strength_number_lt (n : Float) :
    decide ((Expr.number n).strength < memberStrength) = decide (n < 0) := by
  rw [Expr.strength]
  split
  · rename_i hnegative
    rw [decide_eq_true hnegative]
    rfl
  · rename_i hnegative
    rw [decide_eq_false hnegative]
    rfl

/-- The literal of a zero has no point. -/
theorem notMem_point_of_zero (h : (Decimal.Binary.ofFloat n).significand = 0) :
    '.' ∉ magnitudeLiteral (Decimal.Binary.ofFloat n) := by
  have hwhole : (Decimal.Binary.ofFloat n).isWhole = true := by simp [Decimal.Binary.isWhole, h]
  have hfloor : (Decimal.Binary.ofFloat n).floor = 0 := by simp [Decimal.Binary.floor, h]
  rw [magnitudeLiteral, hwhole, hfloor, if_pos (by decide)]
  decide

section Finite

variable (hfinite : n.isFinite = true)
include hfinite

theorem mem_point_iff : '.' ∈ (numberLiteral n).toList ↔
    '.' ∈ magnitudeLiteral (Decimal.Binary.ofFloat n) := by
  rw [Json.numberLiteral_of_isFinite hfinite, String.toList_ofList, Decimal.signed]
  split
  · simp
  · rfl

/-- A number that has its sign bit set and is not below zero is written without a point. -/
theorem isNegative_eq_false_of_point (hpoint : '.' ∈ (numberLiteral n).toList) (hn : ¬n < 0) :
    Decimal.isNegative n = false := by
  by_contra hnegative
  rw [Decimal.lt_zero_iff hfinite, not_and, not_not] at hn
  rw [mem_point_iff hfinite] at hpoint
  exact notMem_point_of_zero (hn (Bool.not_eq_false _ ▸ hnegative)) hpoint

/-- A number is read in front of accesses and calls, whatever they are, unless it is negative
zero. -/
theorem readsMember_target (hsign : Decimal.isNegative n = true → n < 0) :
    ReadsMember (groupedTokens (n < 0) (numberTokens n)) (.number n) := by
  have hreadable : (Expr.number n).Readable .ascii := hfinite
  have hread := Expr.isRead hreadable
  by_cases hn : n < 0
  · rw [decide_eq_true hn]
    exact hread.assignment.grouped
  · have hpositive : Decimal.isNegative n = false := Bool.eq_false_iff.mpr (mt hsign hn)
    rw [decide_eq_false hn, groupedTokens, if_neg Bool.false_ne_true, numberTokens, hpositive,
      if_neg Bool.false_ne_true]
    exact readsMember_number hfinite hpositive

theorem lexes_target (letters : Alphabet) : Lexes letters false letters.numberGlue
    ((Expr.number n).operandText memberStrength (numberLiteral n)).toList
    (groupedTokens (n < 0) (numberTokens n)) := by
  have hspells : (Expr.number n).Spells letters (numberLiteral n) :=
    Expr.lexes_text {} 0 (hfinite : (Expr.number n).Readable letters)
  rw [← strength_number_lt]
  exact hspells.operand memberStrength false

/-- A point behind the literal of a number is a mark of its own if the literal is in parentheses or
has a point already. -/
theorem lexes_target_point (letters : Alphabet)
    (hpoint : n < 0 ∨ '.' ∈ (numberLiteral n).toList) : Lexes letters false letters.wordGlue
    ((Expr.number n).operandText memberStrength (numberLiteral n)).toList
    (groupedTokens (n < 0) (numberTokens n)) := by
  rw [Expr.operandText, strength_number_lt]
  refine lexes_grouped (fun held => lexes_numberLiteral hfinite) fun hbare => ?_
  have hn : ¬n < 0 := of_decide_eq_false hbare
  have hinside := hpoint.resolve_left hn
  have hpositive := isNegative_eq_false_of_point hfinite hinside hn
  rw [mem_point_iff hfinite] at hinside
  rw [Json.numberLiteral_of_isFinite hfinite, String.toList_ofList, Decimal.signed, numberTokens,
    hpositive]
  exact lexes_magnitude_point hfinite (TypeText.numeric_magnitudeLiteral _).chars hinside

/-! ## Reading accesses -/

theorem isBelow_of_point (hpoint : n < 0 ∨ '.' ∈ (numberLiteral n).toList)
    (hnegative : Decimal.isNegative n = true) : n < 0 := by
  by_contra hn
  rw [isNegative_eq_false_of_point hfinite (hpoint.resolve_left hn) hn] at hnegative
  cases hnegative

theorem readsBack_property (hpoint : n < 0 ∨ '.' ∈ (numberLiteral n).toList) {name : String}
    (hname : letters.isName name = true) :
    (Expr.property (.number n) name).ReadsBack letters style := by
  have hdot : letters.wordGlue '.' = false := Alphabet.isPart_of_lt (by decide)
  have htokens : Lexes letters false letters.wordGlue _ _ :=
    (lexes_target_point hfinite letters hpoint).append (lexes_member hname) ⟨'.', _, rfl, hdot⟩
  have htarget := readsMember_target hfinite (isBelow_of_point hfinite hpoint)
  have hmember : (Token.name name).memberName? = some name := rfl
  refine ⟨_, ?_, (htarget.property hmember).assignment⟩
  rw [Expr.print, Expr.text]
  simp only [String.toList_append, String.reduceToList, List.append_assoc, List.cons_append,
    List.nil_append]
  exact htokens.mono fun _ hc => wordGlue_of_numberGlue hc

/-- A member may be named by a reserved word. -/
theorem expression?_property (style : Style) {name : String} (hname : letters.isWord name = true)
    (hpoint : n < 0 ∨ '.' ∈ (numberLiteral n).toList) :
    expression? letters ((Expr.property (.number n) name).print style) =
      some (.property (.number n) name) := by
  have hends : Ends letters.wordGlue ('.' :: name.toList) := by
    rintro _ ⟨⟩
    exact Alphabet.isPart_of_lt (by decide)
  have htokens := lexes_target_point hfinite letters hpoint false rfl _ hends
  rw [tokens?_member hname] at htokens
  have htarget := readsMember_target hfinite (isBelow_of_point hfinite hpoint)
  refine expression?_of_tokens ?_ (htarget.property (memberName?_wordToken name)).assignment
  rw [Expr.print, Expr.text, String.toList_append, String.toList_append, List.append_assoc]
  exact htokens

/-- Digits and a point in front of a name are no number. -/
theorem expression?_property_none (style : Style) {name : String}
    (hname : letters.isWord name = true) (hn : ¬n < 0) (hpoint : '.' ∉ (numberLiteral n).toList) :
    expression? letters ((Expr.property (.number n) name).print style) = none := by
  obtain ⟨c, rest, hcs, hc, -⟩ := Alphabet.isWord_cons hname
  have hbroken : tokens? letters false false
      (magnitudeLiteral (Decimal.Binary.ofFloat n) ++ '.' :: c :: rest) = none :=
    tokens?_magnitude_point hfinite (TypeText.numeric_magnitudeLiteral _).chars
      (mt (mem_point_iff hfinite).mpr hpoint) hc rest
  have htext : ((Expr.property (.number n) name).print style).toList =
      Decimal.signed (Decimal.isNegative n)
        (magnitudeLiteral (Decimal.Binary.ofFloat n) ++ '.' :: c :: rest) := by
    rw [Expr.print, Expr.text, Expr.operandText, strength_number_lt, decide_eq_false hn, grouped,
      if_neg Bool.false_ne_true, Expr.text, Json.numberLiteral_of_isFinite hfinite]
    cases Decimal.isNegative n <;> simp [Decimal.signed, hcs]
  rw [expression?, htext, Decimal.signed]
  split
  · have hends : Ends (fun c => c == '-' || c == '=')
        (magnitudeLiteral (Decimal.Binary.ofFloat n) ++ '.' :: c :: rest) := by
      obtain ⟨d, more, hmagnitude, hd⟩ := starts_magnitude hfinite
      rw [hmagnitude]
      rintro _ ⟨⟩
      exact hd
    have hminus : Lexes letters false (fun c => c == '-' || c == '=') ['-'] [.mark .minus] :=
      lexes_minus
    have htokens := hminus false rfl _ hends
    rw [hbroken] at htokens
    rw [← List.singleton_append, htokens]
    rfl
  · rw [hbroken]
    rfl

theorem readsBack_element (hsign : Decimal.isNegative n = true → n < 0) {index : Expr}
    (h : index.ReadsBack letters style) :
    (Expr.element (.number n) index).ReadsBack letters style := by
  obtain ⟨ts, hlexes, hreads⟩ := h
  have hbracket : Lexes letters false unglued _ _ :=
    (hlexes.beforeMark ']' .closeBracket (by decide)).behindMark (by simp) '[' .openBracket
      (by decide)
  have hopen : ('[', Mark.openBracket) ∈ singleMarks := by decide
  have htokens : Lexes letters false unglued _ _ :=
    (lexes_target hfinite letters).append hbracket ⟨'[', _, rfl, numberGlue_single hopen⟩
  refine ⟨_, ?_, ((readsMember_target hfinite hsign).element hreads).assignment⟩
  rw [Expr.print, Expr.text]
  simp only [String.toList_append, String.reduceToList, List.append_assoc, List.cons_append,
    List.nil_append]
  exact htokens.mono fun _ _ => rfl

theorem readsBack_call (hsign : Decimal.isNegative n = true → n < 0) {arguments : List Expr}
    (h : ∀ argument ∈ arguments, argument.ReadsBack letters style) (span : Span) :
    (Expr.call (.number n) [] arguments span).ReadsBack letters style := by
  obtain ⟨ts, hlexes, hreads⟩ := Expr.ReadsBack.items h
  have hparens : Lexes letters false unglued _ _ :=
    hlexes.behindMark (by simp) '(' .openParen (by decide)
  have hopen : ('(', Mark.openParen) ∈ singleMarks := by decide
  have htokens : Lexes letters false unglued _ _ :=
    (lexes_target hfinite letters).append hparens ⟨'(', _, rfl, numberGlue_single hopen⟩
  refine ⟨_, ?_, ((readsMember_target hfinite hsign).call hreads).assignment⟩
  rw [Expr.print, Expr.text, typeArgumentsText]
  simp only [String.toList_append, String.reduceToList, List.append_assoc, List.cons_append,
    List.nil_append]
  exact htokens.mono fun _ _ => rfl

/-- The tokens of a number that is written bare, in front of a bracket. -/
theorem tokens?_bare {c : Char} {mark : Mark} (hmark : (c, mark) ∈ singleMarks) (rest : List Char) :
    tokens? letters false false ((numberLiteral n).toList ++ c :: rest) =
      (tokens? letters false false rest).map (numberTokens n ++ .mark mark :: ·) := by
  have hends : Ends letters.numberGlue (c :: rest) := by
    rintro _ ⟨⟩
    exact numberGlue_single hmark
  have hsingle : Lexes letters false unglued [c] [.mark mark] := lexes_single hmark
  have hbracket := hsingle false rfl rest fun _ _ => rfl
  rw [List.singleton_append] at hbracket
  rw [lexes_numberLiteral hfinite false rfl _ hends, hbracket, Option.map_map]
  rfl

/-- An access binds tighter than the sign in front of a literal. -/
theorem expression?_signed_none {text : String} {c : Char} {mark : Mark} {rest : List Char}
    (hmark : (c, mark) ∈ singleMarks) (haccesses : ∀ ts, accesses (.mark mark :: ts) = true)
    (htext : text.toList = (numberLiteral n).toList ++ c :: rest)
    (hnegative : Decimal.isNegative n = true) : expression? letters text = none := by
  rw [expression?, htext, tokens?_bare hfinite hmark, numberTokens, if_pos hnegative]
  cases tokens? letters false false rest with
  | none => rfl
  | some ts =>
    have hunary : unary? (.mark .minus :: .number (literalNumeral n) :: .mark mark :: ts) =
        none := by
      rw [unary?]
      simp only [haccesses, if_true, Option.bind_eq_bind, Option.bind_fun_none]
    have hconditional := (assignment?_eq_conditional? rfl).trans (conditional?_none hunary)
    simp only [Option.map_some, Option.bind_eq_bind, Option.bind_some, List.cons_append,
      List.nil_append, hconditional]
    rfl

/-- A number is read back from a member of it exactly if it is below zero or its literal has a
point, from an item of it or a call exactly if it is not negative zero; an index and arguments that
are read back themselves are read back there too. -/
theorem numericReceiver_readsBack_iff (letters : Alphabet) (style : Style) :
    (∀ name, letters.isWord name = true →
      (expression? letters ((Expr.property (.number n) name).print style) =
          some (.property (.number n) name) ↔ n < 0 ∨ '.' ∈ (numberLiteral n).toList)) ∧
    (∀ index : Expr, index.ReadsBack letters style →
      (expression? letters ((Expr.element (.number n) index).print style) =
          some (.element (.number n) index.withoutSpans) ↔
        (Decimal.isNegative n = true → n < 0))) ∧
    ∀ (arguments : List Expr) (span : Span),
      (∀ argument ∈ arguments, argument.ReadsBack letters style) →
      (expression? letters ((Expr.call (.number n) [] arguments span).print style) =
          some (.call (.number n) [] (Expr.allWithoutSpans arguments) ⟨0, 0⟩) ↔
        (Decimal.isNegative n = true → n < 0)) := by
  have hbare (hn : ¬n < 0) : (Expr.number n).operandText memberStrength
      ((Expr.number n).text style 0) = numberLiteral n := by
    rw [Expr.operandText, strength_number_lt, decide_eq_false hn, grouped,
      if_neg Bool.false_ne_true,
      Expr.text]
  refine ⟨fun name hname => ⟨fun hread => ?_, expression?_property hfinite style hname⟩,
    fun index hindex => ⟨fun hread hnegative => ?_,
      fun hsign => (readsBack_element hfinite hsign hindex).expression?⟩,
    fun arguments span harguments => ⟨fun hread hnegative => ?_,
      fun hsign => (readsBack_call hfinite hsign harguments span).expression?⟩⟩
  · by_contra hbad
    rw [not_or] at hbad
    rw [expression?_property_none hfinite style hname hbad.1 hbad.2] at hread
    cases hread
  · by_contra hn
    have hopen : ('[', Mark.openBracket) ∈ singleMarks := by decide
    have htext : ((Expr.element (.number n) index).print style).toList =
        (numberLiteral n).toList ++ '[' :: (index.text style 0 ++ "]").toList := by
      rw [Expr.print, Expr.text, hbare hn]
      simp
    rw [expression?_signed_none hfinite hopen (fun _ => rfl) htext hnegative] at hread
    cases hread
  · by_contra hn
    have hopen : ('(', Mark.openParen) ∈ singleMarks := by decide
    have htext : ((Expr.call (.number n) [] arguments span).print style).toList =
        (numberLiteral n).toList ++
          '(' :: (separated ", " (Expr.texts style 0 arguments) ++ ")").toList := by
      rw [Expr.print, Expr.text, hbare hn, typeArgumentsText]
      simp
    rw [expression?_signed_none hfinite hopen (fun _ => rfl) htext hnegative] at hread
    cases hread

end Finite

theorem numericReceiver_readsBack_negative :
    (-1.5 : Float).isFinite = true ∧
    expression? .ascii ((Expr.property (.number (-1.5)) "return").print {}) =
      some (.property (.number (-1.5)) "return") ∧
    expression? .ascii ((Expr.element (.number (-1.5))
        (.property (.number (-1.5)) "length")).print ⟨.tab, .lineFeed⟩) =
      some (.element (.number (-1.5)) (.property (.number (-1.5)) "length")) ∧
    expression? .ascii ((Expr.call (.number (-1.5)) [] [.string "a", .null] ⟨3, 9⟩).print {}) =
      some (.call (.number (-1.5)) [] [.string "a", .null] ⟨0, 0⟩) := by
  have hfinite : (-1.5 : Float).isFinite = true := by decide +kernel
  have hbelow : (-1.5 : Float) < 0 := by decide +kernel
  have hindex : (Expr.property (.number (-1.5)) "length").ReadsBack .ascii ⟨.tab, .lineFeed⟩ :=
    readsBack_property hfinite (.inl hbelow) (by decide)
  have hstring : (Expr.string "a").Readable .ascii := trivial
  have hnull : Expr.null.Readable .ascii := trivial
  have harguments : ∀ argument ∈ [Expr.string "a", .null], argument.ReadsBack .ascii {} :=
    List.forall_mem_cons.mpr ⟨hstring.readsBack {},
      List.forall_mem_singleton.mpr (hnull.readsBack {})⟩
  exact ⟨hfinite,
    ((numericReceiver_readsBack_iff hfinite .ascii {}).1 "return" (by decide)).mpr (.inl hbelow),
    ((numericReceiver_readsBack_iff hfinite .ascii ⟨.tab, .lineFeed⟩).2.1 _ hindex).mpr
      fun _ => hbelow,
    ((numericReceiver_readsBack_iff hfinite .ascii {}).2.2 _ ⟨3, 9⟩ harguments).mpr
      fun _ => hbelow⟩

/-- The text of a member of a whole number, and that of an item of negative zero, are not read
back. -/
theorem numericReceiver_unread :
    (Expr.property (.number 1) "toString").print {} = "1.toString" ∧
    expression? .ascii "1.toString" = none ∧
    (Expr.element (.number (-0)) (.identifier "i")).print {} = "-0[i]" ∧
    expression? .ascii "-0[i]" = none := by
  have hmember : (Expr.property (.number 1) "toString").print {} = "1.toString" := by decide +kernel
  have hitem : (Expr.element (.number (-0)) (.identifier "i")).print {} =
      "-0[i]" := by decide +kernel
  have hwhole : expression? .ascii ((Expr.property (.number 1) "toString").print {}) = none :=
    expression?_property_none (by decide +kernel) {} (by decide) (by decide +kernel)
      (by decide +kernel)
  have hzero : (-0 : Float).isFinite = true ∧ Decimal.isNegative (-0) = true := by decide +kernel
  have htext : "-0[i]".toList = (numberLiteral (-0)).toList ++
      '[' :: ['i', ']'] := by decide +kernel
  have hopen : ('[', Mark.openBracket) ∈ singleMarks := by decide
  rw [hmember] at hwhole
  exact ⟨hmember, hwhole, hitem,
    expression?_signed_none hzero.1 hopen (fun _ => rfl) htext hzero.2⟩

end TypedRoutes
