import TypedRoutes.Proofs.Runtime.Calls
import TypedRoutes.Proofs.Runtime.Isolated
import TypedRoutes.Proofs.Runtime.Texts
import TypedRoutes.Proofs.Script.Junctions
import Mathlib.Data.List.Chain

/-!
# Concatenations and additions

Taking the parts of a concatenation apart and putting their operands together to the left regroups
additions. Between texts that changes nothing, but two numbers that were added before a text came
may no longer be, and two that were not may now be. The text stays what it is when every addition
inside the parts, and the first one of the result, has a text among its two operands.
-/

namespace TypedRoutes

namespace Expr

/-- Whether the expression is a string literal. -/
def isString : Expr → Bool
  | .string _ => true
  | _ => false

/-- The additions that an expression is made of, each with its two operands. -/
def sums : Expr → List (Expr × Expr)
  | .binary .plus left right => (left, right) :: (left.sums ++ right.sums)
  | _ => []

variable {expr operand : Expr} {exprs : List Expr} {op : BinaryOp}

theorem one_lt_length_operands (op : BinaryOp) (left right : Expr) :
    1 < ((Expr.binary op left right).operands op).length := by
  have hleft := List.length_pos_of_ne_nil (operands_ne_nil op left)
  have hright := List.length_pos_of_ne_nil (operands_ne_nil op right)
  rw [operands, if_pos rfl, List.length_append]
  omega

/-- What is not taken apart any further is no chain. -/
theorem ne_binary_of_operands (h : expr.operands op = [operand]) (left right : Expr) :
    expr ≠ .binary op left right := by
  rintro rfl
  have hlength := one_lt_length_operands op left right
  rw [h] at hlength
  exact Nat.lt_irrefl 1 hlength

/-- An expression with a single operand is that operand. -/
theorem eq_of_operands_eq_singleton (h : expr.operands op = [operand]) : expr = operand := by
  fun_cases operands op expr with
  | case1 left right => exact absurd rfl (ne_binary_of_operands h left right)
  | case2 inner left right hne => simpa [operands, hne] using h
  | case3 other => simpa [operands] using h

/-- Joining literals leaves no two literals next to each other. -/
theorem mergeLiterals_isChain (exprs : List Expr) :
    (mergeLiterals exprs).IsChain fun left right => ¬(left.isString ∧ right.isString) := by
  fun_induction mergeLiterals exprs with
  | case1 => exact .nil
  | case2 literal rest joined tail hmerged ih =>
    rw [hmerged] at ih
    exact List.isChain_cons.mpr (List.isChain_cons.mp ih)
  | case3 literal rest hmerged ih =>
    refine List.isChain_cons.mpr ⟨fun next hmem hboth => ?_, ih⟩
    obtain ⟨tail, hlist⟩ := List.head?_eq_some_iff.mp hmem
    cases next with
    | string more => exact hmerged more tail hlist
    | _ => exact Bool.false_ne_true hboth.2
  | case4 other rest hother ih =>
    refine List.isChain_cons.mpr ⟨fun next _ hboth => ?_, ih⟩
    cases other with
    | string literal => exact hother literal rfl
    | _ => exact Bool.false_ne_true hboth.1

/-- Joining literals leaves the first expression in front, or a literal that has grown. -/
theorem mergeLiterals_cons (first : Expr) (rest : List Expr) :
    (∃ tail, mergeLiterals (first :: rest) = first :: tail) ∨
      ∃ literal tail, mergeLiterals (first :: rest) = .string literal :: tail := by
  cases first with
  | string literal =>
    rw [mergeLiterals]
    split
    · exact .inr ⟨_, _, rfl⟩
    · exact .inr ⟨_, _, rfl⟩
  | _ => exact .inl ⟨_, rfl⟩

end Expr

namespace Runtime

variable {world : World} {env : Env} {heap middle after : Heap} {expr left right first : Expr}
  {exprs rest : List Expr} {text more : String}

/-- Whether a value is a text. -/
def Value.isText : Value → Bool
  | .data (.string _) => true
  | _ => false

/-- Wherever the two expressions are evaluated one after the other, one of them gives a text. -/
def MeetsText (world : World) (env : Env) (left right : Expr) : Prop :=
  ∀ heap middle after a b, (eval world env left).Yields heap a middle →
    (eval world env right).Yields middle b after → a.isText ∨ b.isText

/-! ## From an addition back to its operands -/

theorem yields_of_fuel {fuel : Nat} {value : Value}
    (h : (eval world env expr fuel).Yields heap value after) :
    (eval world env expr).Yields heap value after :=
  ⟨fuel, fun _ hle => (world.moreSteps hle).eval env expr heap value after h⟩

/-- What an addition yields is the sum of what its operands yield. -/
theorem of_yields_plus {result : Value}
    (h : (eval world env (.binary .plus left right)).Yields heap result after) :
    ∃ a b first second, (eval world env left).Yields heap a first ∧
      (eval world env right).Yields first b second ∧
      (plus world a b).Yields second result after := by
  obtain ⟨enough, h⟩ := h
  have hstep := h (enough + 1) (Nat.le_succ enough)
  simp only [eval] at hstep
  obtain ⟨a, first, hleft, hstep⟩ := hstep.of_bind
  obtain ⟨b, second, hright, hplus⟩ := hstep.of_bind
  exact ⟨a, b, first, second, yields_of_fuel hleft, yields_of_fuel hright, hplus⟩

/-- The first of several expressions is evaluated first. -/
theorem of_evalAll_cons {values : List Value}
    (h : (evalAll world env (expr :: rest)).Yields heap values after) :
    ∃ value others middle, values = value :: others ∧
      (eval world env expr).Yields heap value middle ∧
      (evalAll world env rest).Yields middle others after := by
  obtain ⟨enough, h⟩ := h
  have hstep := h (enough + 1) (Nat.le_succ enough)
  simp only [evalAll] at hstep
  obtain ⟨value, middle, hfirst, hstep⟩ := hstep.of_bind
  obtain ⟨others, last, hrest, hpure⟩ := hstep.of_bind
  obtain ⟨rfl, rfl⟩ := hpure.unique (.pure _ last)
  exact ⟨value, others, middle, rfl, yields_of_fuel hfirst,
    ⟨enough, fun _ hle => (world.moreSteps hle).evalAll env rest middle others _ hrest⟩⟩

/-! ## Texts one after the other -/

/-- Adding two values, one of them a text, puts their texts together. -/
theorem plus_text {a b result : Value} (h : (plus world a b).Yields heap result after)
    (htext : a.isText ∨ b.isText) : ∃ left right one two, a = .data left ∧ b = .data right ∧
      left.text? world = some one ∧ right.text? world = some two ∧
      result = .data (.string (one ++ two)) ∧ after = heap := by
  unfold plus at h
  split at h
  · cases htext <;> contradiction
  · rename_i left right
    split at h
    · rename_i two htwo
      obtain ⟨rfl, rfl⟩ := h.unique (.pure _ heap)
      exact ⟨.string left, right, left, two, rfl, rfl, rfl, htwo, rfl, rfl⟩
    · cases h
  · rename_i left right _
    split at h
    · rename_i one hone
      obtain ⟨rfl, rfl⟩ := h.unique (.pure _ heap)
      exact ⟨left, .string right, one, right, rfl, rfl, hone, rfl, rfl, rfl⟩
    · cases h
  · cases h

theorem plus_pieces {a b : Data} (htext : (Value.data a).isText ∨ (Value.data b).isText)
    (hleft : a.text? world = some text) (hright : b.text? world = some more) :
    (plus world (.data a) (.data b)).Yields heap (.data (.string (text ++ more))) heap := by
  obtain ⟨literal, rfl⟩ | ⟨literal, rfl⟩ :
      (∃ literal, a = .string literal) ∨ ∃ literal, b = .string literal := by
    refine htext.imp (fun h => ?_) fun h => ?_
    · cases a <;> first | exact ⟨_, rfl⟩ | cases h
    · cases b <;> first | exact ⟨_, rfl⟩ | cases h
  · cases hleft
    simp only [plus, hright]
    exact .pure _ heap
  · cases hright
    cases a with
    | string literal =>
      cases hleft
      exact .pure _ heap
    | _ =>
      simp only [plus, hleft]
      exact .pure _ heap

/-- Evaluated one after the other, the expressions give values whose texts together make the
text. -/
inductive PiecesFrom (world : World) (env : Env) : List Expr → Heap → String → Heap → Prop where
  | nil (heap : Heap) : PiecesFrom world env [] heap "" heap
  | cons {expr : Expr} {rest : List Expr} {heap middle after : Heap} {value : Data}
      {text more : String} (yields : (eval world env expr).Yields heap (.data value) middle)
      (piece : value.text? world = some text)
      (others : PiecesFrom world env rest middle more after) :
      PiecesFrom world env (expr :: rest) heap (text ++ more) after

namespace PiecesFrom

theorem single {value : Data} (h : (eval world env expr).Yields heap (.data value) after)
    (hpiece : value.text? world = some text) : PiecesFrom world env [expr] heap text after := by
  have hcons := PiecesFrom.cons h hpiece (.nil after)
  rwa [String.append_empty] at hcons

theorem append (h : PiecesFrom world env exprs heap text middle)
    (hrest : PiecesFrom world env rest middle more after) :
    PiecesFrom world env (exprs ++ rest) heap (text ++ more) after := by
  induction h with
  | nil heap => simpa using hrest
  | cons yields piece _ ih =>
    rw [List.cons_append, String.append_assoc]
    exact .cons yields piece (ih hrest)

/-- The operands of an expression in which texts are added are pieces of what the expression
yields. -/
theorem operands {value : Data} (h : (eval world env expr).Yields heap (.data value) after)
    (hpiece : value.text? world = some text)
    (hsums : ∀ sum ∈ expr.sums, MeetsText world env sum.1 sum.2) :
    PiecesFrom world env (expr.operands .plus) heap text after := by
  induction expr using Expr.operands.induct .plus generalizing heap after value text with
  | case1 left right ihl ihr =>
    rw [Expr.sums, List.forall_mem_cons, List.forall_mem_append] at hsums
    obtain ⟨hhere, hinleft, hinright⟩ := hsums
    obtain ⟨a, b, first, second, hleft, hright, hplus⟩ := of_yields_plus h
    obtain ⟨leftValue, rightValue, one, two, rfl, rfl, hone, htwo, hresult, rfl⟩ :=
      plus_text hplus (hhere heap first second a b hleft hright)
    cases hresult
    cases hpiece
    rw [Expr.operands, if_pos rfl]
    exact (ihl hleft hone hinleft).append (ihr hright htwo hinright)
  | case2 inner left right hne =>
    rw [Expr.operands, if_neg hne]
    exact .single h hpiece
  | case3 other hother =>
    have hoperands : other.operands .plus = [other] := by simp [Expr.operands]
    rw [hoperands]
    exact .single h hpiece

/-- The operands of all parts are pieces of what the parts yield one after the other. -/
theorem flatten {texts : List String}
    (h : (evalAll world env exprs).Yields heap (texts.map fun text => .data (.string text)) after)
    (hsums : ∀ expr ∈ exprs, ∀ sum ∈ expr.sums, MeetsText world env sum.1 sum.2) :
    PiecesFrom world env (Expr.flatten .plus exprs) heap (String.join texts) after := by
  induction exprs generalizing heap texts with
  | nil =>
    obtain ⟨hvalues, rfl⟩ := h.unique evalAll_nil
    rw [List.map_eq_nil_iff.mp hvalues]
    exact .nil _
  | cons expr rest ih =>
    obtain ⟨value, others, middle, hvalues, hfirst, hrest⟩ := of_evalAll_cons h
    obtain ⟨text, more, rfl, rfl, rfl⟩ := List.map_eq_cons_iff.mp hvalues
    rw [List.forall_mem_cons] at hsums
    rw [Expr.flatten, List.flatMap_cons, String.join_cons]
    exact (operands hfirst rfl hsums.1).append (ih hrest hsums.2)

/-- A literal in front stands for itself. -/
theorem of_string {literal : String}
    (h : PiecesFrom world env (.string literal :: rest) heap text after) :
    ∃ others, text = literal ++ others ∧ PiecesFrom world env rest heap others after := by
  cases h with
  | cons yields piece others =>
    obtain ⟨hvalue, rfl⟩ := yields.unique (Evaluates.string literal heap)
    cases hvalue
    cases piece
    exact ⟨_, rfl, others⟩

/-- Joining literals does not change the text of the pieces. -/
theorem mergeLiterals (h : PiecesFrom world env exprs heap text after) :
    PiecesFrom world env (Expr.mergeLiterals exprs) heap text after := by
  fun_induction Expr.mergeLiterals exprs generalizing heap text with
  | case1 => exact h
  | case2 literal rest joined tail hmerged ih =>
    obtain ⟨others, rfl, hrest⟩ := h.of_string
    obtain ⟨last, rfl, htail⟩ := of_string (hmerged ▸ ih hrest)
    rw [← String.append_assoc]
    exact .cons (Evaluates.string _ heap) rfl htail
  | case3 literal rest hmerged ih =>
    obtain ⟨others, rfl, hrest⟩ := h.of_string
    exact .cons (Evaluates.string literal heap) rfl (ih hrest)
  | case4 other rest hother ih =>
    cases h with
    | cons yields piece others => exact .cons yields piece (ih others)

/-- Adding the pieces to a text, one by one, puts their text behind it. -/
theorem foldl (h : PiecesFrom world env exprs middle more after)
    (hfirst : (eval world env first).Yields heap (.data (.string text)) middle) :
    (eval world env (exprs.foldl (.binary .plus) first)).Yields heap
      (.data (.string (text ++ more))) after := by
  induction h generalizing first text with
  | nil heap => simpa using hfirst
  | cons yields piece _ ih =>
    rw [← String.append_assoc]
    refine ih (yields_plus hfirst yields ?_)
    simp only [plus, piece]
    exact .pure _ _

end PiecesFrom

/-- Putting the expressions together to the left starts with a text: the first of them gives one, or
it is added to another one and one of the two does. -/
def Leads (world : World) (env : Env) (heap : Heap) (exprs : List Expr) : Prop :=
  ∀ first rest, exprs = first :: rest →
    (∃ text middle, (eval world env first).Yields heap (.data (.string text)) middle) ∨
    ∃ second tail, rest = second :: tail ∧ MeetsText world env first second

theorem Leads.of_string (literal : String) (rest : List Expr) :
    Leads world env heap (.string literal :: rest) := by
  rintro _ _ ⟨⟩
  exact .inl ⟨literal, heap, Evaluates.string literal heap⟩

/-- An addition of a literal meets a text. -/
theorem MeetsText.string_left (literal : String) (right : Expr) :
    MeetsText world env (.string literal) right := by
  intro heap middle after a b hliteral _
  obtain ⟨rfl, -⟩ := hliteral.unique (Evaluates.string literal heap)
  exact .inl rfl

theorem MeetsText.string_right (left : Expr) (literal : String) :
    MeetsText world env left (.string literal) := by
  intro heap middle after a b _ hliteral
  obtain ⟨rfl, -⟩ := hliteral.unique (Evaluates.string literal middle)
  exact .inr rfl

theorem Leads.mergeLiterals (h : Leads world env heap exprs) :
    Leads world env heap (Expr.mergeLiterals exprs) := by
  fun_cases Expr.mergeLiterals exprs with
  | case1 => exact h
  | case2 literal rest joined tail hmerged => exact .of_string _ tail
  | case3 literal rest hmerged => exact .of_string literal _
  | case4 other rest hother =>
    rintro _ _ ⟨⟩
    refine (h other rest rfl).imp id ?_
    rintro ⟨second, tail, rfl, hmeets⟩
    obtain ⟨others, hmerged⟩ | ⟨literal, others, hmerged⟩ := Expr.mergeLiterals_cons second tail
    · exact ⟨second, others, hmerged, hmeets⟩
    · exact ⟨.string literal, others, hmerged, .string_right other literal⟩

/-- The text of the pieces is what the chain yields. -/
theorem Leads.chain (h : Leads world env heap exprs)
    (hpieces : PiecesFrom world env exprs heap text after) :
    (eval world env (Expr.chain .plus (.string "") exprs)).Yields heap
      (.data (.string text)) after := by
  cases hpieces with
  | nil heap => exact Evaluates.string "" heap
  | @cons first rest _ middle _ value one more yields piece others =>
    rw [Expr.chain]
    obtain ⟨start, last, hstart⟩ | ⟨second, tail, rfl, hmeets⟩ := h first rest rfl
    · obtain ⟨hvalue, rfl⟩ := hstart.unique yields
      cases hvalue
      cases piece
      exact others.foldl hstart
    · cases others with
      | @cons _ _ _ next _ value' two more yields' piece' others =>
        rw [List.foldl_cons, ← String.append_assoc]
        have htext := hmeets _ _ _ _ _ yields yields'
        exact others.foldl (yields_plus yields yields' (plus_pieces htext piece piece'))

/-- The operands of parts that yield texts lead with a text when, of two or more, one of the first
two gives one. -/
theorem Leads.flatten {parts : List Expr} {texts : List String}
    (h : (evalAll world env parts).Yields heap (texts.map fun text => .data (.string text)) after)
    (hfirst : ∀ first second rest, Expr.flatten .plus parts = first :: second :: rest →
      MeetsText world env first second) : Leads world env heap (Expr.flatten .plus parts) := by
  intro first rest hflat
  cases rest with
  | cons second tail => exact .inr ⟨second, tail, rfl, hfirst first second tail hflat⟩
  | nil =>
    cases parts with
    | nil => cases hflat
    | cons part parts =>
      obtain ⟨value, others, middle, hvalues, hyields, -⟩ := of_evalAll_cons h
      obtain ⟨text, more, rfl, rfl, rfl⟩ := List.map_eq_cons_iff.mp hvalues
      rw [Expr.flatten, List.flatMap_cons, List.append_eq_singleton_iff] at hflat
      obtain ⟨hnone, -⟩ | ⟨hsingle, -⟩ := hflat
      · exact absurd hnone (Expr.operands_ne_nil .plus part)
      · rw [Expr.eq_of_operands_eq_singleton hsingle] at hyields
        exact .inl ⟨text, middle, hyields⟩

/-- A concatenation of any parts is a chain to the left in which no operand is an addition and no
two literals are next to each other. If the parts yield texts, and every addition inside the parts
and the first one of the chain has a text among its operands, the concatenation yields the texts one
after the other. -/
theorem concatenation_yields_join (world : World) (env : Env) (parts : List Expr) :
    (∃ first rest, Expr.concatenation parts = rest.foldl (.binary .plus) first ∧
      (∀ operand ∈ first :: rest, ∀ left right, operand ≠ .binary .plus left right) ∧
      (first :: rest).IsChain fun left right => ¬(left.isString ∧ right.isString)) ∧
    ∀ heap texts after,
      (evalAll world env parts).Yields heap (texts.map fun text => .data (.string text)) after →
      (∀ part ∈ parts, ∀ sum ∈ part.sums, MeetsText world env sum.1 sum.2) →
      (∀ first second rest, Expr.flatten .plus parts = first :: second :: rest →
        MeetsText world env first second) →
      (eval world env (Expr.concatenation parts)).Yields heap
        (.data (.string (String.join texts))) after := by
  constructor
  · have hflat : ∀ operand ∈ Expr.flatten .plus parts, operand.operands .plus = [operand] :=
      fun _ hmem => Expr.operands_of_mem_flatten hmem
    have hsingle := Expr.operands_of_mem_mergeLiterals hflat
    have hchain := Expr.mergeLiterals_isChain (Expr.flatten .plus parts)
    rw [Expr.concatenation]
    generalize Expr.mergeLiterals (Expr.flatten .plus parts) = merged at *
    cases merged with
    | nil => exact ⟨.string "", [], rfl, by simp, .singleton _⟩
    | cons first rest =>
      exact ⟨first, rest, rfl,
        fun operand hmem => Expr.ne_binary_of_operands (hsingle operand hmem), hchain⟩
  · intro heap texts after hparts hsums hfirst
    have hleads := (Leads.flatten hparts hfirst).mergeLiterals
    exact hleads.chain (PiecesFrom.flatten hparts hsums).mergeLiterals

/-- A part may be grouped to the right. -/
theorem concatenation_yields_bracketed :
    (eval World.bare .empty (Expr.concatenation [.string "[",
        .binary .plus (.string "a") (.binary .plus (.number 1) (.string "b"))])).Yields []
      (.data (.string "[a1b")) [] := by
  have hone : (Data.number 1).text? World.bare = some "1" := by decide +kernel
  have hinner : (eval World.bare .empty (.binary .plus (.number 1) (.string "b"))).Yields []
      (.data (.string ("1" ++ "b"))) [] :=
    yields_plus (Evaluates.number 1 []) (Evaluates.string "b" [])
      (plus_pieces (.inr rfl) hone rfl)
  have hpart := yields_plus (Evaluates.string "a" []) hinner (plus_pieces (.inl rfl) rfl rfl)
  refine (concatenation_yields_join World.bare .empty _).2 [] ["[", "a1b"] []
    (evalAll_cons (Evaluates.string "[" []) (evalAll_cons hpart evalAll_nil)) ?_ ?_
  · rintro part hpart sum hsum
    simp only [List.mem_cons, List.not_mem_nil, or_false] at hpart
    rcases hpart with rfl | rfl
    · cases hsum
    · simp only [Expr.sums, List.nil_append, List.append_nil, List.mem_cons, List.not_mem_nil,
        or_false] at hsum
      rcases hsum with rfl | rfl
      · exact .string_left "a" _
      · exact .string_right _ "b"
  · rintro _ _ _ ⟨⟩
    exact .string_left "[" _

/-- A text, and a part that adds two numbers before a text comes. -/
def addingParts : List Expr :=
  [.string "x", .binary .plus (.binary .plus (.number 1) (.number 2)) (.string "a")]

/-- Numbers that a part adds are written one by one when a text comes to stand in front. -/
theorem concatenation_yields_regrouped :
    (evalAll World.bare .empty addingParts).Yields []
      [.data (.string "x"), .data (.string "3a")] [] ∧
    (eval World.bare .empty (Expr.concatenation addingParts)).Yields []
      (.data (.string "x12a")) [] ∧
    ¬(eval World.bare .empty (Expr.concatenation addingParts)).Yields []
      (.data (.string (String.join ["x", "3a"]))) [] := by
  have hsum : (1 : Float) + 2 = 3 := by decide +kernel
  have hone : (Data.number 1).text? World.bare = some "1" := by decide +kernel
  have htwo : (Data.number 2).text? World.bare = some "2" := by decide +kernel
  have hthree : (Data.number 3).text? World.bare = some "3" := by decide +kernel
  have hadded : (eval World.bare .empty (.binary .plus (.number 1) (.number 2))).Yields []
      (.data (.number 3)) [] := by
    refine yields_plus (Evaluates.number 1 []) (Evaluates.number 2 []) ?_
    rw [← hsum]
    exact .pure _ []
  have hregrouped : (eval World.bare .empty (Expr.concatenation addingParts)).Yields []
      (.data (.string ("x" ++ "1" ++ "2" ++ "a"))) [] :=
    yields_plus
      (yields_plus
        (yields_plus (Evaluates.string "x" []) (Evaluates.number 1 [])
          (plus_pieces (.inl rfl) rfl hone))
        (Evaluates.number 2 []) (plus_pieces (.inl rfl) rfl htwo))
      (Evaluates.string "a" []) (plus_pieces (.inl rfl) rfl rfl)
  refine ⟨?_, hregrouped, fun hkept => ?_⟩
  · have hpart := yields_plus hadded (Evaluates.string "a" []) (plus_pieces (.inr rfl) hthree rfl)
    exact evalAll_cons (Evaluates.string "x" []) (evalAll_cons hpart evalAll_nil)
  · obtain ⟨hsame, -⟩ := hkept.unique hregrouped
    simp only [Value.data.injEq, Data.string.injEq] at hsame
    exact absurd hsame (by decide)

end Runtime

end TypedRoutes
