import TypedRoutes.Proofs.Grammar.Reader
import Mathlib.Tactic.ByContra

/-!
# Levels of the grammar

How far the readers of the single levels go. Tokens are read on a level as an expression when they
are read so whatever stands behind them, as long as it does not bind tighter than that level. Tokens
that are read on one level are read on all looser ones, and the operators of a level group to the
left.
-/

namespace TypedRoutes.Grammar

variable {ts rest : List Token} {x : Expr}

/-- A rest that is shorter may be read on. -/
theorem shorter?_some {α : Type} {value : α} (h : rest.length < ts.length) :
    shorter? ts (some (value, rest)) = some (value, ⟨rest, h⟩) := by
  simp [shorter?, h]

/-- What stands behind something is shorter than all of it. -/
theorem length_behind (h : ts ≠ []) : rest.length < (ts ++ rest).length := by
  rw [List.length_append]
  have hpos := List.length_pos_iff.mpr h
  omega

/-- A token is passed where it stands. -/
theorem past?_cons (token : Token) :
    past? token (token :: rest) = some ⟨rest, Nat.lt_succ_self _⟩ := by
  rw [past?, if_pos rfl]

/-- No access follows, and no operator of the given levels. -/
structure Loose (levels : List (List (Token × BinaryOp))) (rest : List Token) : Prop where
  access : accesses rest = false
  operator : ∀ operators ∈ levels, ∀ token ∈ rest.head?, operators.lookup token = none

/-- Something follows that ends every expression, or nothing does. -/
def Closed (rest : List Token) : Prop :=
  ∀ token ∈ rest.head?, token ∈ [.mark .closeParen, .mark .closeBracket, .mark .closeBrace,
    .mark .comma, .mark .semicolon, .mark .colon]

/-- A closing mark goes on no expression. -/
theorem closed_cons {token : Token} (h : token ∈ [.mark .closeParen, .mark .closeBracket,
    .mark .closeBrace, .mark .comma, .mark .semicolon, .mark .colon]) : Closed (token :: rest) := by
  rintro _ ⟨⟩
  exact h

/-- The tokens are read as a member expression with accesses and calls behind it. -/
def ReadsMember (ts : List Token) (x : Expr) : Prop :=
  ∀ rest, member? (ts ++ rest) = links? x rest

/-- The tokens are read as a unary expression. -/
def ReadsUnary (ts : List Token) (x : Expr) : Prop :=
  ∀ rest, accesses rest = false → unary? (ts ++ rest) = some (x, rest)

/-- The tokens are read as a binary expression on one of the levels, or a tighter one. -/
def ReadsBinary (levels : List (List (Token × BinaryOp))) (ts : List Token) (x : Expr) : Prop :=
  ∀ rest, Loose levels rest → binary? levels (ts ++ rest) = some (x, rest)

/-- The tokens are read as the left operand of whatever operators of the level come next. -/
def ReadsChain (operators : List (Token × BinaryOp)) (tighter : List (List (Token × BinaryOp)))
    (ts : List Token) (x : Expr) : Prop :=
  ∀ rest, Loose tighter rest →
    binary? (operators :: tighter) (ts ++ rest) = operations? operators tighter x rest

/-- The tokens are read as a conditional expression. -/
def ReadsConditional (ts : List Token) (x : Expr) : Prop :=
  ∀ rest, Closed rest → conditional? (ts ++ rest) = some (x, rest)

/-- The tokens are read as an assignment expression. -/
def ReadsAssignment (ts : List Token) (x : Expr) : Prop :=
  ∀ rest, Closed rest → assignment? (ts ++ rest) = some (x, rest)

/-- No accesses follow where none starts. -/
theorem links?_of_accesses (h : accesses rest = false) : links? x rest = some (x, rest) := by
  cases rest with
  | nil => rw [links?] <;> simp
  | cons token behind =>
    rw [links?]
    all_goals
      intros
      simp_all [accesses]

/-- What goes on no expression goes on no operator either. -/
theorem Closed.loose (h : Closed rest) (levels : List (List (Token × BinaryOp)))
    (hlevels : levels ⊆ ladder) : Loose levels rest := by
  cases rest with
  | nil => exact ⟨rfl, by simp⟩
  | cons token behind =>
    have htoken := h token rfl
    simp only [List.mem_cons, List.not_mem_nil, or_false] at htoken
    refine ⟨by rcases htoken with rfl | rfl | rfl | rfl | rfl | rfl <;> rfl, ?_⟩
    rintro operators hmem _ ⟨⟩
    have hladder := hlevels hmem
    simp only [ladder, List.mem_cons, List.not_mem_nil, or_false] at hladder
    rcases hladder with rfl | rfl | rfl | rfl | rfl <;>
      rcases htoken with rfl | rfl | rfl | rfl | rfl | rfl <;> decide

/-! ## Tokens that no expression starts with -/

/-- Where no operand starts, no operation does. -/
theorem binary?_none (h : unary? ts = none) (levels : List (List (Token × BinaryOp))) :
    binary? levels ts = none := by
  induction levels with
  | nil => rw [binary?, h]
  | cons operators tighter ih =>
    rw [binary?, ih]
    rfl

/-- Where no operand starts, no conditional does. -/
theorem conditional?_none (h : unary? ts = none) : conditional? ts = none := by
  rw [conditional?, binary?_none h]
  rfl

/-- Where nothing primary starts, no target does. -/
theorem member?_none (h : primary? ts = none) : member? ts = none := by
  rw [member?, h]
  rfl

/-- Nothing is read from nothing. -/
theorem unary?_nil : unary? [] = none := by
  rw [unary?, member?_none (by rw [primary?]; all_goals simp)]
  all_goals simp

/-- An expression that starts with no closure is read as a conditional expression. -/
theorem assignment?_eq_conditional? (h : arrowHead? ts = none) :
    assignment? ts = conditional? ts := by
  rw [assignment?, h]
  rfl

/-- An expression has tokens. -/
theorem ReadsAssignment.ne_nil (h : ReadsAssignment ts x) : ts ≠ [] := by
  rintro rfl
  have hread := h [] nofun
  rw [List.append_nil, assignment?_eq_conditional? rfl, conditional?_none unary?_nil] at hread
  cases hread

/-! ## From level to level -/

namespace ReadsMember

/-- A target with a member behind it. -/
theorem property (h : ReadsMember ts x) {token : Token} {name : String}
    (hname : token.memberName? = some name) :
    ReadsMember (ts ++ [.mark .dot, token]) (.property x name) := fun rest => by
  rw [List.append_assoc, h]
  simp only [List.cons_append, List.nil_append]
  rw [links?, hname]
  rfl

/-- A target with an index behind it. -/
theorem element {index : List Token} {y : Expr} (h : ReadsMember ts x)
    (hindex : ReadsAssignment index y) :
    ReadsMember (ts ++ .mark .openBracket :: (index ++ [.mark .closeBracket])) (.element x y) :=
  fun rest => by
    have hread := hindex (.mark .closeBracket :: rest) (closed_cons (by simp))
    rw [List.append_assoc, h, List.cons_append, List.append_assoc, List.singleton_append, links?,
      hread, shorter?_some (length_behind hindex.ne_nil)]
    simp only [Option.bind_eq_bind, Option.bind_some, past?_cons]

/-- A target with arguments behind it. -/
theorem call {arguments : List Token} {ys : List Expr} (h : ReadsMember ts x)
    (harguments : ∀ rest, items? .closeParen (arguments ++ .mark .closeParen :: rest) =
      some (ys, rest)) :
    ReadsMember (ts ++ .mark .openParen :: (arguments ++ [.mark .closeParen]))
      (.call x [] ys ⟨0, 0⟩) := fun rest => by
  have hlength : rest.length < (arguments ++ .mark .closeParen :: rest).length := by
    simp only [List.length_append, List.length_cons]
    omega
  rw [List.append_assoc, h, List.cons_append, List.append_assoc, List.singleton_append, links?,
    harguments, shorter?_some hlength]
  rfl

/-- Operators in front of an operand are no primary expressions. -/
theorem unary?_eq (h : ReadsMember ts x) (rest : List Token) :
    unary? (ts ++ rest) = member? (ts ++ rest) := by
  have hnone : member? ts ≠ none := by
    have hread := h []
    rw [List.append_nil, links?_of_accesses rfl] at hread
    rw [hread]
    exact Option.some_ne_none _
  cases ts with
  | nil => exact absurd (member?_none (by rw [primary?]; all_goals simp)) hnone
  | cons token behind =>
    have hprimary (h : primary? (token :: behind) = none) : False := hnone (member?_none h)
    rw [List.cons_append, unary?]
    all_goals
      intros
      refine hprimary ?_
      simp_all [primary?]

/-- A target is an operand. -/
theorem unary (h : ReadsMember ts x) : ReadsUnary ts x := fun rest hrest => by
  rw [h.unary?_eq, h, links?_of_accesses hrest]

end ReadsMember

namespace ReadsUnary

/-- An operand is an operation of the tightest level. -/
theorem binary (h : ReadsUnary ts x) : ReadsBinary [] ts x := fun rest hrest => by
  rw [binary?, h rest hrest.access]

end ReadsUnary

variable {operators : List (Token × BinaryOp)} {tighter levels : List (List (Token × BinaryOp))}

/-- An operation has tokens. -/
theorem ReadsBinary.ne_nil (h : ReadsBinary levels ts x) : ts ≠ [] := by
  rintro rfl
  have hread := h [] ⟨rfl, by simp⟩
  rw [List.append_nil, binary?_none unary?_nil] at hread
  cases hread

/-- An operation of a tighter level is a chain without an operator. -/
theorem ReadsBinary.chain (h : ReadsBinary tighter ts x) : ReadsChain operators tighter ts x :=
  fun rest hrest => by
    rw [binary?, h rest hrest, shorter?_some (length_behind h.ne_nil)]
    rfl

/-- A chain of operators is an operation of their level. -/
theorem ReadsChain.binary (h : ReadsChain operators tighter ts x) :
    ReadsBinary (operators :: tighter) ts x := fun rest hrest => by
  rw [h rest ⟨hrest.access, fun levels hmem => hrest.operator levels (.tail _ hmem)⟩]
  cases rest with
  | nil => rw [operations?]
  | cons token behind => rw [operations?, hrest.operator operators (.head _) token rfl]

/-- Operators of one level group to the left: what stands in front of an operator is its left
operand as a whole, and the right operand is of a tighter level. -/
theorem ReadsChain.operation {left right : List Token} {xl xr : Expr} {token : Token}
    {op : BinaryOp}
    (hleft : ReadsChain operators tighter left xl) (hright : ReadsBinary tighter right xr)
    (htoken : operators.lookup token = some op) (hloose : ∀ rest, Loose tighter (token :: rest)) :
    ReadsChain operators tighter (left ++ token :: right) (.binary op xl xr) := fun rest hrest => by
  rw [List.append_assoc, List.cons_append, hleft _ (hloose _), operations?, htoken]
  simp only [hright rest hrest, shorter?_some (length_behind hright.ne_nil)]
  rfl

/-- An operation that is followed by no question mark is a conditional. -/
theorem conditional?_of_binary (h : ReadsBinary ladder ts x) (hloose : Loose ladder rest)
    (hquestion : past? (.mark .question) rest = none) :
    conditional? (ts ++ rest) = some (x, rest) := by
  rw [conditional?, h rest hloose, shorter?_some (length_behind h.ne_nil)]
  simp only [Option.bind_eq_bind, Option.bind_some, hquestion]

/-- An operation of the loosest level is a conditional. -/
theorem ReadsBinary.conditional (h : ReadsBinary ladder ts x) : ReadsConditional ts x :=
  fun rest hrest => by
    refine conditional?_of_binary h (hrest.loose ladder (List.Subset.refl _)) ?_
    cases rest with
    | nil => rfl
    | cons token behind =>
      have htoken := hrest token rfl
      simp only [List.mem_cons, List.not_mem_nil, or_false] at htoken
      rcases htoken with rfl | rfl | rfl | rfl | rfl | rfl <;> rfl

/-- A condition in front of a question mark, with an expression on either side of the colon. -/
theorem readsConditional {condition whenTrue whenFalse : List Token} {xc xt xf : Expr}
    (hcondition : ReadsBinary ladder condition xc) (htrue : ReadsAssignment whenTrue xt)
    (hne : whenTrue ≠ []) (hfalse : ReadsAssignment whenFalse xf) :
    ReadsConditional (condition ++ .mark .question :: (whenTrue ++ .mark .colon :: whenFalse))
      (.conditional xc xt xf) := fun rest hrest => by
  have hloose (rest : List Token) : Loose ladder (.mark .question :: rest) := by
    refine ⟨rfl, ?_⟩
    rintro operators hmem _ ⟨⟩
    simp only [ladder, List.mem_cons, List.not_mem_nil, or_false] at hmem
    rcases hmem with rfl | rfl | rfl | rfl | rfl <;> rfl
  have hcolon := htrue (.mark .colon :: (whenFalse ++ rest)) (closed_cons (by simp))
  rw [List.append_assoc, List.cons_append, conditional?, hcondition _ (hloose _),
    shorter?_some (length_behind hcondition.ne_nil)]
  simp only [List.cons_append, List.append_assoc, Option.bind_eq_bind, Option.bind_some, past?_cons,
    hcolon, shorter?_some (length_behind hne), hfalse rest hrest]
  rfl

/-! ## Closures -/

/-- A name is a target. -/
theorem readsMember_name (text : String) : ReadsMember [.name text] (.identifier text) :=
  fun rest => by
    rw [List.singleton_append, member?, primary?, shorter?_some (Nat.lt_succ_self _)]
    rfl

/-- An operation of a level is one of all looser levels. -/
theorem ReadsBinary.looser (h : ReadsBinary tighter ts x) :
    ∀ more, ReadsBinary (more ++ tighter) ts x
  | [] => h
  | _ :: more => (h.looser more).chain.binary

/-- What is unary is read on every level. -/
theorem ReadsUnary.anyLevel (h : ReadsUnary ts x) (levels : List (List (Token × BinaryOp))) :
    ReadsBinary levels ts x := by
  have hbinary := h.binary.looser levels
  rwa [List.append_nil] at hbinary

/-- A name is an expression. -/
theorem readsAssignment_name (text : String) : ReadsAssignment [.name text] (.identifier text) :=
  fun rest hrest =>
    (assignment?_eq_conditional? rfl).trans
      (((readsMember_name text).unary.anyLevel _).conditional rest hrest)

/-- An expression in parentheses can be a target. -/
theorem ReadsAssignment.grouped (h : ReadsAssignment ts x) :
    ReadsMember (.mark .openParen :: (ts ++ [.mark .closeParen])) x := fun rest => by
  have hinner := h (.mark .closeParen :: rest) (closed_cons (by simp))
  have hlength : rest.length < (.mark .openParen :: (ts ++ .mark .closeParen :: rest)).length := by
    simp only [List.length_cons, List.length_append]
    omega
  rw [List.cons_append, List.append_assoc, List.singleton_append, member?, primary?, hinner]
  simp only [Option.bind_eq_bind, Option.bind_some, past?_cons, Option.pure_def,
    shorter?_some hlength]

/-- Parameters and an arrow are no expression that ends where they end: an arrow follows no
expression. -/
theorem not_arrowHead (h : ReadsConditional ts x) (hrest : Closed rest) :
    arrowHead? (ts ++ rest) = none := by
  have hread := h rest hrest
  generalize ts ++ rest = us at hread
  unfold arrowHead?
  split
  · rename_i behind
    by_contra hsome
    have hname (text : String) (behind : List Token) (hclosed : Closed behind) :
        assignment? (.name text :: behind) = some (.identifier text, behind) :=
      readsAssignment_name text behind hclosed
    have hfail (hinner : primary? (.mark .openParen :: behind) = none) : False := by
      rw [conditional?_none (by rw [unary?, member?_none hinner] <;> simp)] at hread
      cases hread
    unfold parameters? at hsome
    split at hsome
    · refine hfail ?_
      have hnone : primary? (.mark .closeParen :: .mark .arrow :: ‹List Token›) = none := by
        rw [primary?] <;> simp
      rw [primary?, assignment?_eq_conditional? rfl,
        conditional?_none (by rw [unary?, member?_none hnone] <;> simp)]
      rfl
    · rename_i text behind
      have hgrouped := (readsAssignment_name text).grouped.unary.anyLevel ladder
      have harrow : Loose ladder (.mark .arrow :: behind) := by
        refine ⟨rfl, ?_⟩
        rintro operators hmem _ ⟨⟩
        simp only [ladder, List.mem_cons, List.not_mem_nil, or_false] at hmem
        rcases hmem with rfl | rfl | rfl | rfl | rfl <;> rfl
      have hconditional := conditional?_of_binary hgrouped harrow rfl
      rw [List.cons_append, List.append_assoc] at hconditional
      rw [show (.mark .openParen :: .name text :: .mark .closeParen :: .mark .arrow :: behind) =
        .mark .openParen :: ([.name text] ++ ([.mark .closeParen] ++
          .mark .arrow :: behind)) from rfl,
        hconditional] at hread
      cases hread
      exact absurd (hrest _ rfl) (by simp)
    · refine hfail ?_
      rw [primary?, hname _ _ (closed_cons (by simp))]
      rfl
    · exact hsome rfl
  · rfl

/-- A conditional is an expression. -/
theorem ReadsConditional.assignment (h : ReadsConditional ts x) : ReadsAssignment ts x :=
  fun rest hrest => (assignment?_eq_conditional? (not_arrowHead h hrest)).trans (h rest hrest)

/-- What is unary is read wherever an expression is. -/
theorem ReadsUnary.assignment (h : ReadsUnary ts x) : ReadsAssignment ts x :=
  (h.anyLevel ladder).conditional.assignment

/-- A target is an expression. -/
theorem ReadsMember.assignment (h : ReadsMember ts x) : ReadsAssignment ts x :=
  h.unary.assignment

end TypedRoutes.Grammar
