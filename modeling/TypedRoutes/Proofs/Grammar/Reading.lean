import TypedRoutes.Proofs.Grammar.Levels
import TypedRoutes.Proofs.Grammar.Literals

/-!
# Tokens that are read back

The tokens of a readable tree are read as the tree. An expression is read on the level that its form
belongs to, and so on every looser one; an operand that binds too loosely for its place stands in
parentheses and is read as a primary expression.
-/

namespace TypedRoutes

open Grammar

/-! ## Operators on the ladder -/

/-- The level of the ladder that an operator stands on. -/
def BinaryOp.level : BinaryOp → Nat
  | .or => 0
  | .and => 1
  | .strictEqual | .strictNotEqual => 2
  | .instanceOf => 3
  | .plus => 4

/-- The operators on the level of an operator. -/
def BinaryOp.peers (op : BinaryOp) : List (Token × BinaryOp) := ladder.getD op.level []

/-- The levels that are tighter than that of an operator. -/
def BinaryOp.tighter (op : BinaryOp) : List (List (Token × BinaryOp)) := ladder.drop (op.level + 1)

/-- An operator is found among its peers by its token. -/
theorem BinaryOp.lookup_token (op : BinaryOp) : op.peers.lookup op.token = some op := by
  cases op <;> rfl

/-- The token of an operator goes on with nothing that binds tighter. -/
theorem BinaryOp.loose_token (op : BinaryOp) (rest : List Token) :
    Loose op.tighter (op.token :: rest) := by
  refine ⟨by cases op <;> rfl, ?_⟩
  rintro operators hmem _ ⟨⟩
  revert operators
  cases op <;> decide

/-- The levels of the ladder are those above an operator, its own, and the tighter ones. -/
theorem BinaryOp.ladder_eq (op : BinaryOp) :
    ladder = ladder.take op.level ++ op.peers :: op.tighter := by
  cases op <;> rfl

/-- The strengths of the operators are in the order of their levels. -/
theorem BinaryOp.tighter_eq {op other : BinaryOp} (h : op.strength < other.strength) :
    ∃ between, op.tighter = between ++ other.peers :: other.tighter := by
  refine ⟨op.tighter.take (other.level - op.level - 1), ?_⟩
  revert h
  cases op <;> cases other <;> decide

/-- Operators of one strength stand on one level. -/
theorem BinaryOp.peers_eq {op other : BinaryOp} (h : op.strength = other.strength) :
    op.peers = other.peers ∧ op.tighter = other.tighter := by
  revert h
  cases op <;> cases other <;> decide

/-! ## Expressions in their places -/

/-- An expression is read back from its tokens, on the level that its form belongs to. -/
def Expr.IsRead (expr : Expr) : Prop :=
  match expr with
  | .arrow _ _ => ReadsAssignment expr.tokens expr.withoutSpans
  | .conditional _ _ _ => ReadsConditional expr.tokens expr.withoutSpans
  | .binary op _ _ => ReadsChain op.peers op.tighter expr.tokens expr.withoutSpans
  | .unary _ _ | .number _ => ReadsUnary expr.tokens expr.withoutSpans
  | _ => ReadsMember expr.tokens expr.withoutSpans

/-- A number binds as tight as a negation, whatever its sign. -/
theorem Expr.unaryStrength_le_number (value : Float) :
    unaryStrength ≤ (Expr.number value).strength := by
  rw [Expr.strength]
  split <;> decide

namespace Expr.IsRead

variable {expr : Expr}

/-- An expression that binds tight enough is read where a target is wanted. -/
theorem member (h : expr.IsRead) (hstrength : memberStrength ≤ expr.strength)
    (hnumber : expr.isNumber = false) : ReadsMember expr.tokens expr.withoutSpans := by
  cases expr with
  | arrow | conditional | unary => exact absurd hstrength (of_decide_eq_false rfl)
  | binary op => cases op <;> exact absurd hstrength (of_decide_eq_false rfl)
  | number => cases hnumber
  | _ => exact h

/-- An expression that binds tight enough is read where an operand of a negation is wanted. -/
theorem unary (h : expr.IsRead) (hstrength : unaryStrength ≤ expr.strength) :
    ReadsUnary expr.tokens expr.withoutSpans := by
  cases expr with
  | arrow | conditional => exact absurd hstrength (of_decide_eq_false rfl)
  | binary op => cases op <;> exact absurd hstrength (of_decide_eq_false rfl)
  | unary | number => exact h
  | _ => exact ReadsMember.unary h

/-- A right operand binds tighter than the operator. -/
theorem right (h : expr.IsRead) (op : BinaryOp) (hstrength : op.strength < expr.strength) :
    ReadsBinary op.tighter expr.tokens expr.withoutSpans := by
  cases expr with
  | arrow | conditional => cases op <;> exact absurd hstrength (of_decide_eq_false rfl)
  | binary other =>
    obtain ⟨between, heq⟩ := BinaryOp.tighter_eq hstrength
    rw [heq]
    exact (ReadsChain.binary h).looser between
  | number value => exact (h.unary (Expr.unaryStrength_le_number value)).anyLevel _
  | _ => exact (h.unary (of_decide_eq_true rfl)).anyLevel _

/-- A left operand binds at least as tightly as the operator. -/
theorem left (h : expr.IsRead) (op : BinaryOp) (hstrength : op.strength ≤ expr.strength) :
    ReadsChain op.peers op.tighter expr.tokens expr.withoutSpans := by
  rcases Nat.lt_or_eq_of_le hstrength with hlt | heq
  · exact (h.right op hlt).chain
  · cases expr with
    | binary other =>
      obtain ⟨hpeers, htighter⟩ := BinaryOp.peers_eq heq
      rw [hpeers, htighter]
      exact h
    | number value =>
      have hnumber := Expr.unaryStrength_le_number value
      rw [← heq] at hnumber
      cases op <;> exact absurd hnumber (by decide)
    | _ => cases op <;> cases heq

/-- A condition binds tighter than the conditional form. -/
theorem condition (h : expr.IsRead) (hstrength : conditionalStrength < expr.strength) :
    ReadsBinary ladder expr.tokens expr.withoutSpans := by
  cases expr with
  | arrow | conditional => exact absurd hstrength (of_decide_eq_false rfl)
  | binary op =>
    rw [op.ladder_eq]
    exact (ReadsChain.binary h).looser _
  | number value => exact (h.unary (Expr.unaryStrength_le_number value)).anyLevel _
  | _ => exact (h.unary (of_decide_eq_true rfl)).anyLevel _

/-- Every expression is read where any is wanted. -/
theorem assignment (h : expr.IsRead) : ReadsAssignment expr.tokens expr.withoutSpans := by
  cases expr with
  | arrow => exact h
  | conditional => exact ReadsConditional.assignment h
  | binary op =>
      exact (h.condition (by cases op <;> exact of_decide_eq_true rfl)).conditional.assignment
  | number value => exact (h.unary (Expr.unaryStrength_le_number value)).assignment
  | _ => exact (h.condition (of_decide_eq_true rfl)).conditional.assignment

/-- An operand is read on the level of its place, if it is so without parentheses whenever none are
needed. -/
theorem operand {reads : List Token → Expr → Prop} {required : Nat} (h : expr.IsRead)
    (hmember : ∀ {ts x}, ReadsMember ts x → reads ts x)
    (hbare : required ≤ expr.strength → reads expr.tokens expr.withoutSpans) :
    reads (groupedTokens (expr.strength < required) expr.tokens) expr.withoutSpans := by
  by_cases hneeded : expr.strength < required
  · rw [decide_eq_true hneeded, groupedTokens, if_pos rfl]
    exact hmember h.assignment.grouped
  · rw [decide_eq_false hneeded, groupedTokens, if_neg Bool.false_ne_true]
    exact hbare (Nat.le_of_not_lt hneeded)

/-- An expression is read as a target if it is put in parentheses where it has to be. -/
theorem target (h : expr.IsRead) (hnumber : expr.isNumber = false) :
    ReadsMember (groupedTokens (expr.strength < memberStrength) expr.tokens) expr.withoutSpans :=
  h.operand id fun hstrength => h.member hstrength hnumber

end Expr.IsRead

/-! ## First tokens -/

/-- Whether an expression can start with a token. -/
def Grammar.Token.opens : Token → Bool
  | .name _ | .string _ | .number _ => true
  | .keyword .yes | .keyword .no | .keyword .null | .keyword .typeOf => true
  | .mark .openParen | .mark .openBracket | .mark .openBrace | .mark .not | .mark .minus => true
  | _ => false

/-- The tokens start as those of an expression do, with a brace only if one is expected. -/
def Opens (brace : Bool) (ts : List Token) : Prop :=
  ∃ token rest, ts = token :: rest ∧ token.opens = true ∧
    (token = .mark .openBrace → brace = true)

/-- A text that goes on opens as it did. -/
theorem Opens.append {brace : Bool} {ts : List Token} (h : Opens brace ts) (more : List Token) :
    Opens brace (ts ++ more) := by
  obtain ⟨token, rest, rfl, hopens, hbrace⟩ := h
  exact ⟨token, rest ++ more, rfl, hopens, hbrace⟩

/-- What stands in parentheses opens with one, and with no brace. -/
theorem Opens.grouped {brace : Bool} {ts : List Token} (h : Opens brace ts) (needed : Bool) :
    Opens brace (groupedTokens needed ts) := by
  cases needed with
  | false => exact h
  | true => exact ⟨_, _, rfl, rfl, nofun⟩

/-- Whether an expression opens with a brace is told by its shape. -/
theorem Expr.opens_tokens (expr : Expr) : Opens expr.startsWithObject expr.tokens := by
  cases expr with
  | object _ => exact ⟨_, _, rfl, rfl, fun _ => rfl⟩
  | boolean value => exact ⟨_, _, rfl, by cases value <;> rfl, by simp⟩
  | number value =>
    rw [Expr.tokens, numberTokens]
    split <;> exact ⟨_, _, rfl, rfl, by simp⟩
  | unary op _ => exact ⟨_, _, rfl, by cases op <;> rfl,
      by cases op <;> intro h <;> cases h⟩
  | property target _ => exact (target.opens_tokens.grouped _).append _
  | element target _ => exact (target.opens_tokens.grouped _).append _
  | call callee _ _ _ => exact (callee.opens_tokens.grouped _).append _
  | binary _ left _ => exact (left.opens_tokens.grouped _).append _
  | conditional condition _ _ => exact (condition.opens_tokens.grouped _).append _
  | _ => exact ⟨_, _, rfl, rfl, by simp⟩

/-- What opens is not empty. -/
theorem Opens.ne_nil {brace : Bool} {ts : List Token} (h : Opens brace ts) : ts ≠ [] := by
  obtain ⟨token, rest, rfl, -, -⟩ := h
  exact List.cons_ne_nil _ _

/-! ## The readers on the tokens of a tree -/

/-- Parameters are read up to the arrow. -/
theorem parameters?_paramTokens (params : List String) (rest : List Token) :
    parameters? (paramTokens params ++ .mark .closeParen :: .mark .arrow :: rest) =
      some (params, rest) := by
  induction params with
  | nil => rfl
  | cons param more ih =>
    cases more with
    | nil => rfl
    | cons next others =>
      rw [paramTokens, List.cons_append, List.cons_append, parameters?, ih]
      · rfl
      · simp

/-- A keyword is spelled as its text. -/
theorem Grammar.Keyword.text_eq {text : String} {word : Keyword}
    (h : Keyword.ofText? text = some word) : word.text = text := by
  unfold Keyword.ofText? at h
  split at h
  case h_11 =>
    split at h <;> cases h
    rfl
  all_goals
    cases h
    rfl

/-- The key of an entry is read back from its token. -/
theorem entryKey?_keyToken (key : String) : (keyToken key).entryKey? = some key := by
  rw [keyToken]
  split
  · rw [wordToken]
    split
    · rename_i word hword
      exact congrArg some (Keyword.text_eq hword)
    · rfl
  · rfl

/-- The token of a key is no mark. -/
theorem keyToken_ne_mark (key : String) (mark : Mark) : keyToken key ≠ .mark mark := by
  rw [keyToken, wordToken]
  split
  · split <;> exact nofun
  · exact nofun

/-- An entry is read up to what closes it. -/
theorem keyed?_of_assignment {ts : List Token} {x : Expr} (key : String)
    (h : ReadsAssignment ts x) {rest : List Token} (hrest : Closed rest) :
    keyed? (keyToken key :: .mark .colon :: (ts ++ rest)) = some (.mk key x, rest) := by
  rw [keyed?, entryKey?_keyToken, h rest hrest]
  rfl

/-- A closing token that the tokens behind an item may end with. -/
theorem closed_moreTokens {token : Token} {rest : List Token} (h : Closed (token :: rest)) :
    ∀ exprs : List Expr, Closed (Expr.moreTokens exprs ++ token :: rest)
  | [] => h
  | _ :: _ => closed_cons (by simp)

/-- What stands behind entries closes the value in front of them. -/
theorem closed_moreEntryTokens {token : Token} {rest : List Token} (h : Closed (token :: rest)) :
    ∀ entries : List Entry, Closed (Entry.moreTokens entries ++ token :: rest)
  | [] => h
  | .mk _ _ :: _ => closed_cons (by simp)

/-- A statement starts with no closing brace and no alternative. -/
theorem Stmt.tokens_head (stmt : Stmt) : ∃ token rest, stmt.tokens = token :: rest ∧
    token ≠ .mark .closeBrace ∧ token ≠ .keyword .alternative := by
  cases stmt with
  | branch condition consequent alternative =>
    cases alternative <;> exact ⟨_, _, rfl, by simp, by simp⟩
  | expression value =>
    obtain ⟨token, rest, htokens, hopens, -⟩ :=
      (value.opens_tokens.grouped value.isObject).append [.mark .semicolon]
    refine ⟨token, rest, by rw [Stmt.tokens, htokens], ?_, ?_⟩ <;>
    · rintro rfl
      cases hopens
  | _ => exact ⟨_, _, rfl, by simp, by simp⟩

/-- No alternative follows what is in front of more statements. -/
theorem past?_allTokens (stmts : List Stmt) (rest : List Token) :
    past? (.keyword .alternative) (Stmt.allTokens stmts ++ .mark .closeBrace :: rest) = none := by
  cases stmts with
  | nil => rfl
  | cons stmt others =>
    obtain ⟨token, more, htokens, -, hne⟩ := stmt.tokens_head
    rw [Stmt.allTokens, htokens, List.cons_append, List.cons_append, past?, if_neg hne]

/-- An expression is read up to its semicolon. -/
theorem terminated?_of_assignment {ts : List Token} {x : Expr} (h : ReadsAssignment ts x)
    (rest : List Token) : terminated? (ts ++ .mark .semicolon :: rest) = some (x, rest) := by
  rw [terminated?, h _ (closed_cons (by simp))]
  simp only [Option.bind_eq_bind, Option.bind_some, past?_cons]
  rfl

/-- The value of a closure starts with no brace: an object literal stands in parentheses. -/
theorem Expr.opens_concise (value : Expr)
    (h : value.startsWithObject = true → value.isObject = true) :
    Opens false (Body.concise value).tokens := by
  rw [Body.tokens]
  cases hobject : value.isObject with
  | true => exact ⟨_, _, rfl, rfl, by simp⟩
  | false =>
    have hopens := value.opens_tokens.grouped (false || value.strength < conditionalStrength)
    rwa [Bool.eq_false_iff.mpr fun hstarts => Bool.false_ne_true (hobject ▸ h hstarts)] at hopens

/-- The same holds of an expression statement. -/
theorem Expr.opens_statement (value : Expr)
    (h : value.startsWithObject = true → value.isObject = true) :
    Opens false (groupedTokens value.isObject value.tokens) := by
  cases hobject : value.isObject with
  | true => exact ⟨_, _, rfl, rfl, by simp⟩
  | false =>
    have hopens := value.opens_tokens.grouped false
    rwa [Bool.eq_false_iff.mpr fun hstarts => Bool.false_ne_true (hobject ▸ h hstarts)] at hopens

/-- A body that opens with no brace is an expression. -/
theorem body?_of_opens {ts : List Token} (h : Opens false ts) :
    body? ts = (assignment? ts).map fun found => (.concise found.1, found.2) := by
  obtain ⟨token, rest, rfl, -, hbrace⟩ := h
  rw [body?, Option.map_eq_bind]
  · rfl
  · rintro behind heq
    exact Bool.false_ne_true (hbrace (List.cons.inj heq).1)

/-- A statement that opens like an expression is one. -/
theorem statement?_of_opens {ts : List Token} (h : Opens false ts) :
    statement? ts = (terminated? ts).map fun found => (.expression found.1, found.2) := by
  obtain ⟨token, rest, rfl, hopens, hbrace⟩ := h
  rw [statement?, Option.map_eq_bind]
  · rfl
  all_goals
    intros
    rename_i heq
    have htoken := (List.cons.inj heq).1
    subst htoken
    first
      | exact Bool.false_ne_true (hbrace rfl)
      | cases hopens

/-- A number without a sign can be a target. -/
theorem readsMember_number {value : Float} (h : value.isFinite = true)
    (hsign : Decimal.isNegative value = false) :
    ReadsMember [.number (literalNumeral value)] (.number value) := fun rest => by
  obtain ⟨-, hfloat, hpositive⟩ := literalNumeral_spec h
  have hnumeral : (literalNumeral value).toFloat? = some value := by
    rwa [hsign, ← hpositive] at hfloat
  rw [List.singleton_append, member?, primary?, hnumeral, Option.map_some,
    shorter?_some (Nat.lt_succ_self _)]
  rfl

variable {letters : Alphabet}

mutual

/-- A readable expression is read back from its tokens, spans apart, whatever closes it. -/
theorem Expr.isRead : ∀ {expr : Expr}, expr.Readable letters → expr.IsRead
  | .identifier name, _ => readsMember_name name
  | .string value, _ => fun rest => by
    rw [Expr.tokens, List.singleton_append, member?, primary?, shorter?_some (Nat.lt_succ_self _)]
    rfl
  | .boolean value, _ => fun rest => by
    cases value <;>
    · rw [Expr.tokens, List.singleton_append, member?]
      simp only [Bool.false_eq_true, if_false, if_true]
      rw [primary?, shorter?_some (Nat.lt_succ_self _)]
      rfl
  | .null, _ => fun rest => by
    rw [Expr.tokens, List.singleton_append, member?, primary?, shorter?_some (Nat.lt_succ_self _)]
    rfl
  | .number value, h => fun rest hrest => by
    obtain ⟨-, hfloat, -⟩ := literalNumeral_spec h
    rw [Expr.tokens, numberTokens]
    cases hnegative : Decimal.isNegative value with
    | true =>
      rw [hnegative] at hfloat
      rw [if_pos rfl, List.cons_append, List.singleton_append, unary?, hfloat]
      simp only [Option.bind_eq_bind, Option.bind_some, hrest]
      rfl
    | false =>
      rw [if_neg Bool.false_ne_true, (readsMember_number h hnegative).unary rest hrest]
      rfl
  | .property target name, h => ((Expr.isRead h.1).target h.2.1).property rfl
  | .element target index, h =>
    ((Expr.isRead h.1).target h.2.1).element (Expr.isRead h.2.2).assignment
  | .call callee typeArguments arguments span, ⟨hcallee, hnumber, htypes, harguments⟩ => by
    subst htypes
    exact ((Expr.isRead hcallee).target hnumber).call
      (Expr.items?_itemTokens harguments .closeParen (.inl rfl))
  | .object entries, h => fun rest => by
    have hentries := Entry.entries?_itemTokens h rest
    have hlength : rest.length <
        (.mark .openBrace :: (Entry.itemTokens entries ++ .mark .closeBrace :: rest)).length := by
      simp only [List.length_append, List.length_cons]
      omega
    rw [Expr.tokens, List.cons_append, List.append_assoc, List.singleton_append, member?, primary?,
      hentries]
    simp only [Option.bind_eq_bind, Option.bind_some, Option.pure_def, shorter?_some hlength]
    rfl
  | .array elements, h => fun rest => by
    have hitems := Expr.items?_itemTokens h .closeBracket (.inr rfl) rest
    have hlength : rest.length <
        (.mark .openBracket :: (Expr.itemTokens elements ++
          .mark .closeBracket :: rest)).length := by
      simp only [List.length_append, List.length_cons]
      omega
    rw [Expr.tokens, List.cons_append, List.append_assoc, List.singleton_append, member?, primary?,
      hitems]
    simp only [Option.bind_eq_bind, Option.bind_some, Option.pure_def, shorter?_some hlength]
    rfl
  | .arrow params body, h => fun rest hrest => by
    have hparams := parameters?_paramTokens params (body.tokens ++ rest)
    have hlength : (body.tokens ++ rest).length < (.mark .openParen :: (paramTokens params ++
        .mark .closeParen :: .mark .arrow :: (body.tokens ++ rest))).length := by
      simp only [List.length_append, List.length_cons]
      omega
    rw [Expr.tokens, List.cons_append, List.append_assoc, List.cons_append, List.cons_append,
      assignment?, arrowHead?, hparams, shorter?_some hlength]
    simp only [Body.body?_tokens h.2 hrest, Option.bind_eq_bind, Option.bind_some]
    rfl
  | .unary op operand, (h : operand.Readable letters) => fun rest hrest => by
    have hoperand := (Expr.isRead h).operand ReadsMember.unary (Expr.isRead h).unary rest hrest
    cases op <;>
    · rw [Expr.tokens, UnaryOp.token, List.cons_append, unary?, hoperand]
      rfl
  | .binary op left right, h => by
    have hleft := (Expr.isRead h.1).operand
      (fun hmember => (hmember.unary.anyLevel _).chain) ((Expr.isRead h.1).left op)
    have hright := (Expr.isRead h.2).operand (fun hmember => hmember.unary.anyLevel _)
      ((Expr.isRead h.2).right op)
    exact hleft.operation hright op.lookup_token op.loose_token
  | .conditional condition whenTrue whenFalse, h => by
    have hbranch (expr : Expr) (hread : expr.IsRead) : ReadsAssignment
        (groupedTokens (expr.strength < conditionalStrength) expr.tokens) expr.withoutSpans :=
      hread.operand ReadsMember.assignment
        fun _ => hread.assignment
    have hcondition := (Expr.isRead h.1).operand (fun hmember => hmember.unary.anyLevel ladder)
      (Expr.isRead h.1).condition
    exact readsConditional hcondition (hbranch whenTrue (Expr.isRead h.2.1))
      (whenTrue.opens_tokens.grouped _).ne_nil (hbranch whenFalse (Expr.isRead h.2.2))

/-- Items are read back up to the mark that closes them. -/
theorem Expr.items?_itemTokens : ∀ {exprs : List Expr}, Expr.AllReadable letters exprs →
    ∀ (close : Mark), close = .closeParen ∨ close = .closeBracket → ∀ rest : List Token,
      items? close (Expr.itemTokens exprs ++ .mark close :: rest) =
        some (Expr.allWithoutSpans exprs, rest)
  | [], _, close, _, rest => by
    rw [Expr.itemTokens, List.nil_append, items?, if_pos rfl]
    rfl
  | first :: others, h, close, hclose, rest => by
    have hclosed : Closed (.mark close :: rest) :=
      closed_cons (by rcases hclose with rfl | rfl <;> simp)
    have hfirst := (Expr.isRead h.1).assignment _ (closed_moreTokens hclosed others)
    have hmore := Expr.moreItems?_moreTokens h.2 close hclose rest
    obtain ⟨token, behind, htokens, hopens, -⟩ := first.opens_tokens
    have hne : token ≠ .mark close := by
      rintro rfl
      rcases hclose with rfl | rfl <;> cases hopens
    rw [Expr.itemTokens, List.append_assoc]
    rw [htokens, List.cons_append] at hfirst ⊢
    rw [items?, if_neg hne, hfirst,
      shorter?_some (Nat.lt_of_le_of_lt (by simp) (Nat.lt_succ_self _))]
    simp only [Option.bind_eq_bind, Option.bind_some, hmore]
    rfl

/-- Items behind a comma each are read back up to the mark that closes them. -/
theorem Expr.moreItems?_moreTokens : ∀ {exprs : List Expr}, Expr.AllReadable letters exprs →
    ∀ (close : Mark), close = .closeParen ∨ close = .closeBracket → ∀ rest : List Token,
      moreItems? close (Expr.moreTokens exprs ++ .mark close :: rest) =
        some (Expr.allWithoutSpans exprs, rest)
  | [], _, close, _, rest => by
    rw [Expr.moreTokens, List.nil_append, moreItems?, if_pos rfl]
    rfl
  | next :: others, h, close, hclose, rest => by
    have hclosed : Closed (.mark close :: rest) :=
      closed_cons (by rcases hclose with rfl | rfl <;> simp)
    have hnext := (Expr.isRead h.1).assignment _ (closed_moreTokens hclosed others)
    have hmore := Expr.moreItems?_moreTokens h.2 close hclose rest
    have hne : Token.mark .comma ≠ .mark close := by rcases hclose with rfl | rfl <;> decide
    rw [Expr.moreTokens, List.cons_append, List.append_assoc, moreItems?, if_neg hne, if_pos rfl,
      hnext, shorter?_some (length_behind next.opens_tokens.ne_nil)]
    simp only [Option.bind_eq_bind, Option.bind_some, hmore]
    rfl

/-- The entries of an object are read back up to its brace. -/
theorem Entry.entries?_itemTokens : ∀ {entries : List Entry}, Entry.AllReadable letters entries →
    ∀ rest : List Token, entries? (Entry.itemTokens entries ++ .mark .closeBrace :: rest) =
      some (Entry.allWithoutSpans entries, rest)
  | [], _, rest => by
    rw [Entry.itemTokens, List.nil_append, entries?]
    rfl
  | .mk key value :: others, h, rest => by
    have hclosed : Closed (.mark .closeBrace :: rest) := closed_cons (by simp)
    have hfirst := keyed?_of_assignment key (Expr.isRead h.1).assignment
      (closed_moreEntryTokens hclosed others)
    have hmore := Entry.moreEntries?_moreTokens h.2 rest
    have hlength : (Entry.moreTokens others ++ .mark .closeBrace :: rest).length <
        (keyToken key :: .mark .colon :: (value.tokens ++
          (Entry.moreTokens others ++ .mark .closeBrace :: rest))).length := by
      simp only [List.length_append, List.length_cons]
      omega
    rw [Entry.itemTokens, List.cons_append, List.cons_append, List.append_assoc, entries?, hfirst,
      shorter?_some hlength]
    · simp only [Option.bind_eq_bind, Option.bind_some, hmore]
      rfl
    · rintro behind heq
      exact keyToken_ne_mark key _ (List.cons.inj heq).1

/-- Entries behind a comma each are read back up to the brace. -/
theorem Entry.moreEntries?_moreTokens : ∀ {entries : List Entry},
    Entry.AllReadable letters entries → ∀ rest : List Token,
      moreEntries? (Entry.moreTokens entries ++ .mark .closeBrace :: rest) =
        some (Entry.allWithoutSpans entries, rest)
  | [], _, rest => by
    rw [Entry.moreTokens, List.nil_append, moreEntries?]
    rfl
  | .mk key value :: others, h, rest => by
    have hclosed : Closed (.mark .closeBrace :: rest) := closed_cons (by simp)
    have hnext := keyed?_of_assignment key (Expr.isRead h.1).assignment
      (closed_moreEntryTokens hclosed others)
    have hmore := Entry.moreEntries?_moreTokens h.2 rest
    have hlength : (Entry.moreTokens others ++ .mark .closeBrace :: rest).length <
        (keyToken key :: .mark .colon :: (value.tokens ++
          (Entry.moreTokens others ++ .mark .closeBrace :: rest))).length := by
      simp only [List.length_append, List.length_cons]
      omega
    rw [Entry.moreTokens, List.cons_append, List.cons_append, List.cons_append, List.append_assoc,
      moreEntries?, hnext, shorter?_some hlength]
    simp only [Option.bind_eq_bind, Option.bind_some, hmore]
    rfl

/-- A body is read back up to what closes it. -/
theorem Body.body?_tokens : ∀ {body : Body}, body.Readable letters → ∀ {rest : List Token},
    Closed rest → body? (body.tokens ++ rest) = some (body.withoutSpans, rest)
  | .concise value, h, rest, hrest => by
    have hread := Expr.isRead h.1
    have hassignment : ReadsAssignment (Body.concise value).tokens value.withoutSpans := by
      rw [Body.tokens]
      cases hobject : value.isObject with
      | true => exact hread.assignment.grouped.assignment
      | false =>
        exact hread.operand ReadsMember.assignment
          fun _ => hread.assignment
    rw [body?_of_opens ((value.opens_concise h.2).append rest), hassignment rest hrest]
    rfl
  | .block statements, h, rest, _ => by
    rw [Body.tokens, List.cons_append, List.append_assoc, List.singleton_append, body?,
      Stmt.block?_allTokens h rest]
    rfl

/-- The statements of a block are read back up to its brace. -/
theorem Stmt.block?_allTokens : ∀ {stmts : List Stmt}, Stmt.AllReadable letters stmts →
    ∀ rest : List Token, block? (Stmt.allTokens stmts ++ .mark .closeBrace :: rest) =
      some (Stmt.allWithoutSpans stmts, rest)
  | [], _, rest => by
    rw [Stmt.allTokens, List.nil_append, block?]
    rfl
  | stmt :: others, h, rest => by
    have hfirst := Stmt.statement?_tokens h.1 (past?_allTokens others rest)
    have hmore := Stmt.block?_allTokens h.2 rest
    obtain ⟨token, behind, htokens, hne, -⟩ := stmt.tokens_head
    have hnil : stmt.tokens ≠ [] := by
      rw [htokens]
      exact List.cons_ne_nil _ _
    rw [Stmt.allTokens, List.append_assoc, block?, hfirst, shorter?_some (length_behind hnil)]
    · simp only [Option.bind_eq_bind, Option.bind_some, hmore]
      rfl
    · intro behind heq
      rw [htokens, List.cons_append] at heq
      exact hne (List.cons.inj heq).1

/-- A statement is read back unless it could go on with an alternative. -/
theorem Stmt.statement?_tokens : ∀ {stmt : Stmt}, stmt.Readable letters → ∀ {rest : List Token},
    past? (.keyword .alternative) rest = none →
      statement? (stmt.tokens ++ rest) = some (stmt.withoutSpans, rest)
  | .const name value, h, rest, _ => by
    have hvalue := terminated?_of_assignment (Expr.isRead h.2).assignment rest
    simp only [Stmt.tokens, List.cons_append, List.append_assoc, List.nil_append]
    rw [statement?, hvalue]
    rfl
  | .returns value, (h : value.Readable letters), rest, _ => by
    have hvalue := terminated?_of_assignment (Expr.isRead h).assignment rest
    simp only [Stmt.tokens, List.cons_append, List.append_assoc, List.nil_append]
    rw [statement?, hvalue]
    rfl
  | .throws value, (h : value.Readable letters), rest, _ => by
    have hvalue := terminated?_of_assignment (Expr.isRead h).assignment rest
    simp only [Stmt.tokens, List.cons_append, List.append_assoc, List.nil_append]
    rw [statement?, hvalue]
    rfl
  | .expression value, h, rest, _ => by
    have hread := Expr.isRead h.1
    have hassignment :
        ReadsAssignment (groupedTokens value.isObject value.tokens) value.withoutSpans := by
      cases value.isObject with
      | true => exact hread.assignment.grouped.assignment
      | false => exact hread.assignment
    rw [Stmt.tokens, List.append_assoc, List.singleton_append,
      statement?_of_opens ((value.opens_statement h.2).append _),
      terminated?_of_assignment hassignment]
    rfl
  | .branch condition consequent [], h, rest, hrest => by
    have hcondition (rest : List Token) :=
      (Expr.isRead h.1).assignment (.mark .closeParen :: rest) (closed_cons (by simp))
    have hlength : rest.length <
        (Stmt.allTokens consequent ++ .mark .closeBrace :: rest).length := by
      simp only [List.length_append, List.length_cons]
      omega
    simp only [Stmt.tokens, List.cons_append, List.append_assoc, List.nil_append]
    rw [statement?, hcondition, shorter?_some (length_behind condition.opens_tokens.ne_nil)]
    simp only [Option.bind_eq_bind, Option.bind_some, past?_cons, Stmt.block?_allTokens h.2.1 rest,
      shorter?_some hlength, hrest]
    rfl
  | .branch condition consequent (first :: others), h, rest, hrest => by
    have hcondition (rest : List Token) :=
      (Expr.isRead h.1).assignment (.mark .closeParen :: rest) (closed_cons (by simp))
    have halternative := Stmt.block?_allTokens h.2.2 rest
    rw [Stmt.allTokens, List.append_assoc] at halternative
    have hconsequent := Stmt.block?_allTokens h.2.1 (.keyword .alternative :: .mark .openBrace ::
      (first.tokens ++ (Stmt.allTokens others ++ .mark .closeBrace :: rest)))
    simp only [Stmt.tokens, List.cons_append, List.append_assoc, List.nil_append]
    rw [statement?, hcondition, shorter?_some (length_behind condition.opens_tokens.ne_nil)]
    simp only [Option.bind_eq_bind, Option.bind_some, past?_cons, hconsequent]
    rw [shorter?_some (by simp only [List.length_append, List.length_cons]; omega)]
    simp only [Option.bind_some, past?_cons, halternative]
    rfl

end

end TypedRoutes
