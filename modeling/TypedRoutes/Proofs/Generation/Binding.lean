import TypedRoutes.Proofs.Generation.Closed
import TypedRoutes.Proofs.Runtime.Renaming

/-!
# Binding

The names that an expression binds, and what follows where it binds none of the factory's: likeness
is renaming. In front of the factory nothing is bound that it mentions, so it means the same in both
expressions.
-/

namespace TypedRoutes

/-- The expressions that an expression is put together from. -/
def Expr.children : Expr → List Expr
  | .property target _ => [target]
  | .element target index => [target, index]
  | .call callee _ arguments _ => callee :: arguments
  | .object entries => entries.map Entry.value
  | .array elements => elements
  | .arrow _ (.concise value) => [value]
  | .arrow _ (.block statements) => blockParts statements
  | .unary _ operand => [operand]
  | .binary _ left right => [left, right]
  | .conditional condition whenTrue whenFalse => [condition, whenTrue, whenFalse]
  | _ => []

/-- A closure in the expression has a parameter or a constant of this name. What the factory itself
binds does not count. -/
inductive Binds (factory : Expr) (name : String) : Expr → Prop where
  | parameter {params : List String} {body : Body} (h : name ∈ params) :
      Binds factory name (.arrow params body)
  | constant {params : List String} {statements : List Stmt} (h : name ∈ declaredNames statements) :
      Binds factory name (.arrow params (.block statements))
  | inside {expr part : Expr} (apart : ∀ key, expr ≠ .property factory key)
      (h : part ∈ expr.children) (hpart : Binds factory name part) : Binds factory name expr

/-- The expression binds no name that the factory mentions. -/
def Spares (factory expr : Expr) : Prop :=
  ∀ name ∈ factory.identifiers, ¬ Binds factory name expr

/-- Only closures bind names themselves. -/
theorem Binds.of_children {factory expr : Expr} {name : String} (h : Binds factory name expr)
    (harrow : ∀ params body, expr ≠ .arrow params body) :
    (∀ key, expr ≠ .property factory key) ∧ ∃ part ∈ expr.children, Binds factory name part := by
  cases h with
  | parameter => exact absurd rfl (harrow _ _)
  | constant => exact absurd rfl (harrow _ _)
  | inside apart hmem hpart => exact ⟨apart, _, hmem, hpart⟩

namespace Alike

variable {factory expr expr' : Expr} {links : String → String → Prop} {params : List String}
  {naming : Naming}

/-- Generated expressions bind only names of closure parameters. -/
theorem local_of_binds {name : String} (h : Alike factory links params expr expr')
    (hbinds : Binds factory name expr) : Local name := by
  induction h with
  | lambda bound _ ih =>
    cases hbinds with
    | parameter h => exact bound name h
    | inside apart hmem hpart =>
      rw [List.mem_singleton.mp hmem] at hpart
      exact ih hpart
  -- binders inside the factory are not those of generated code
  | runtime key =>
    obtain ⟨apart, -⟩ := hbinds.of_children (by simp)
    exact absurd rfl (apart key)
  | property _ key ih =>
    obtain ⟨-, part, hmem, hpart⟩ := hbinds.of_children (by simp)
    rw [List.mem_singleton.mp hmem] at hpart
    exact ih hpart
  | element _ _ ih ihi =>
    obtain ⟨-, part, hmem, hpart⟩ := hbinds.of_children (by simp)
    simp only [Expr.children, List.mem_cons, List.not_mem_nil, or_false] at hmem
    rcases hmem with rfl | rfl
    · exact ih hpart
    · exact ihi hpart
  | call _ length _ ih each =>
    obtain ⟨-, part, hmem, hpart⟩ := hbinds.of_children (by simp)
    rcases List.mem_cons.mp hmem with rfl | hmem
    · exact ih hpart
    · obtain ⟨_, hpair⟩ := exists_mem_zip length hmem
      exact each hpair hpart
  | object keys _ each =>
    obtain ⟨-, part, hmem, hpart⟩ := hbinds.of_children (by simp)
    obtain ⟨entry, hentry, rfl⟩ := List.mem_map.mp hmem
    obtain ⟨_, hpair⟩ := exists_mem_zip (by simpa using congrArg List.length keys) hentry
    exact each hpair hpart
  | array length _ each =>
    obtain ⟨-, part, hmem, hpart⟩ := hbinds.of_children (by simp)
    obtain ⟨_, hpair⟩ := exists_mem_zip length hmem
    exact each hpair hpart
  | unary op _ ih =>
    obtain ⟨-, part, hmem, hpart⟩ := hbinds.of_children (by simp)
    rw [List.mem_singleton.mp hmem] at hpart
    exact ih hpart
  | binary op _ _ ihl ihr =>
    obtain ⟨-, part, hmem, hpart⟩ := hbinds.of_children (by simp)
    simp only [Expr.children, List.mem_cons, List.not_mem_nil, or_false] at hmem
    rcases hmem with rfl | rfl
    · exact ihl hpart
    · exact ihr hpart
  | conditional _ _ _ ih iht ihf =>
    obtain ⟨-, part, hmem, hpart⟩ := hbinds.of_children (by simp)
    simp only [Expr.children, List.mem_cons, List.not_mem_nil, or_false] at hmem
    rcases hmem with rfl | rfl | rfl
    · exact ih hpart
    · exact iht hpart
    · exact ihf hpart
  | _ =>
    obtain ⟨-, part, hmem, -⟩ := hbinds.of_children (by simp)
    cases hmem

/-- Expressions that are alike are renamed where what is linked, what every program finds in place
and what the factory mentions is named so. A closure around the factory binds the same names in both
expressions. -/
theorem renames (hlinks : ∀ a b, links a b → naming a b ∧ (a = b ∨ ¬ Local a ∧ ¬ Local b))
    (hstandard : naming.Keeps standardNames) (hfactory : naming.Keeps factory.identifiers)
    (h : Alike factory links params expr expr') (hparams : ∀ name ∈ params, Local name) :
    Expr.Renames (naming.under params) expr expr' := by
  induction h with
  | linked h =>
    obtain ⟨hnaming, rfl | ⟨ha, hb⟩⟩ := hlinks _ _ h
    · exact .identifier (Naming.under_self hnaming _)
    · exact .identifier (.inr ⟨mt (hparams _) ha, mt (hparams _) hb, hnaming⟩)
  | parameter h bound => exact .identifier (.inl ⟨h, rfl⟩)
  | standard h => exact .identifier (hstandard.under _ _ h)
  | runtime name => exact .property (factory.renames_self (hfactory.under _)) name
  | property _ name ih => exact .property (ih hparams) name
  | element _ _ ih ihi => exact .element (ih hparams) (ihi hparams)
  | call _ length _ ih each => exact .call (ih hparams) length fun hmem => each hmem hparams
  | string value => exact .string value
  | number value => exact .number value
  | boolean value => exact .boolean value
  | null => exact .null
  | object keys _ each => exact .object keys fun hmem => each hmem hparams
  | array length _ each => exact .array length fun hmem => each hmem hparams
  | lambda bound _ ih =>
    refine .arrow (.concise ?_)
    rw [Naming.under_under]
    exact ih fun name hname => (List.mem_append.mp hname).elim (bound name) (hparams name)
  | unary op _ ih => exact .unary op (ih hparams)
  | binary op _ _ ihl ihr => exact .binary op (ihl hparams) (ihr hparams)
  | conditional _ _ _ ih iht ihf => exact .conditional (ih hparams) (iht hparams) (ihf hparams)

end Alike

/-! ## The names that an artifact binds -/

open Scope

section

variable {definitions : TypeTable} {factory : Expr} {mode : Mode} {type : Ty} {block : List Stmt}
  {name : String}

/-- An artifact binds what its closure binds. -/
theorem binds_artifactLiteral_iff (scope : Scope) (hartifact : scope.artifactLiteral mode type =
      .objectOf [("type", .string mode.name), (mode.name, .lambdaBlock ["input"] block)]) :
    Binds factory name (scope.artifactLiteral mode type) ↔
      name = "input" ∨ name ∈ declaredNames block ∨ ∃ part ∈ blockParts block,
        Binds factory name part := by
  rw [hartifact]
  constructor
  · intro h
    obtain ⟨-, part, hmem, hpart⟩ := h.of_children (by simp [Expr.objectOf])
    simp only [Expr.objectOf, Expr.children, List.map_cons, List.map_nil, Entry.value,
      List.mem_cons, List.not_mem_nil, or_false] at hmem
    rcases hmem with rfl | rfl
    · obtain ⟨-, part, hmem, -⟩ := hpart.of_children (by simp)
      cases hmem
    · cases hpart with
      | parameter h => exact .inl (List.mem_singleton.mp h)
      | constant h => exact .inr (.inl h)
      | inside _ hmem hpart => exact .inr (.inr ⟨_, hmem, hpart⟩)
  · intro h
    refine .inside (fun key => by simp [Expr.objectOf])
      (show Expr.lambdaBlock ["input"] block ∈ _
        by simp [Expr.objectOf, Expr.children, Entry.value])
      ?_
    rcases h with rfl | h | ⟨part, hmem, hpart⟩
    · exact .parameter List.mem_cons_self
    · exact .constant h
    · exact .inside (fun key => by simp [Expr.lambdaBlock]) hmem hpart

/-- What a report declares binds the parameters of the function that adds to it. -/
theorem binds_reportDeclarations {part : Expr} (hmem : part ∈ blockParts reportDeclarations)
    (h : Binds factory name part) : Local name ∨ name = "expected" := by
  have hlinked (a : String) : Alike factory (fun _ _ => True) [] (.identifier a) (.identifier a) :=
    .linked trivial
  simp only [blockParts, reportDeclarations, Stmt.parts, List.cons_append, List.nil_append,
    List.mem_cons, List.not_mem_nil, or_false] at hmem
  rcases hmem with rfl | rfl
  · obtain ⟨-, part, hmem, -⟩ := h.of_children (by simp)
    cases hmem
  · cases h with
    | parameter h =>
      simp only [List.mem_cons, List.not_mem_nil, or_false] at h
      rcases h with rfl | rfl | rfl
      · exact .inl (.inl (by simp [parameters]))
      · exact .inr rfl
      · exact .inl (.inr ⟨0, "value", Nat.le_refl _, by simp [binders], rfl⟩)
    | constant h => cases h
    | inside _ hmem hpart =>
      change _ ∈ [Expr.invoke (.property (.identifier "errors") "push") [.objectOf
        [("path", .identifier "path"), ("expected", .identifier "expected"),
          ("value", .identifier "value")]], .boolean false] at hmem
      rw [List.mem_cons, List.mem_singleton] at hmem
      rcases hmem with rfl | rfl
      · have hmismatch : Alike factory (fun _ _ => True) [] (.objectOf
            [("path", .identifier "path"), ("expected", .identifier "expected"),
              ("value", .identifier "value")]) _ :=
          .objectOf (.cons ⟨rfl, hlinked "path"⟩ (.cons ⟨rfl, hlinked "expected"⟩
            (.cons ⟨rfl, hlinked "value"⟩ .nil)))
        have hcall := Alike.invoke (.property (hlinked "errors") "push") (.cons hmismatch .nil)
        exact .inl (hcall.local_of_binds hpart)
      · obtain ⟨-, part, hmem, -⟩ := hpart.of_children (by simp)
        cases hmem

/-- The names that an artifact can bind. -/
theorem binds_artifact (h : Binds factory name (artifact definitions factory mode type)) :
    Local name ∨ HelperName name ∨ name ∈ ["errors", reporter, "success", "expected"] := by
  obtain ⟨declarations, statements, generated, final, hclosure, -, hgives, hdrained, hkinds⟩ :=
    Scope.closure_run (.mk factory definitions) mode type
  have hartifact : (Scope.mk factory definitions).artifactLiteral mode type =
      .objectOf [("type", .string mode.name), (mode.name, .lambdaBlock ["input"]
        (declarations ++ helperStatements generated ++ statements))] := by
    rw [Scope.artifactLiteral, hclosure]
  have hhelpers {consts : List String}
      (hconsts : declaredNames (helperStatements generated) ⊆ consts) :
      ∀ helper ∈ final.requested, helper.kind.helperName helper.index ∈ consts :=
    fun helper hhelper => hconsts (hdrained.mem_declaredNames.mpr ⟨helper, hhelper, rfl⟩)
  let consts := ["errors", reporter, "success"] ++ declaredNames (helperStatements generated)
  have hhelpers : ∀ helper ∈ final.requested, helper.kind.helperName helper.index ∈ consts :=
    fun helper hhelper => List.mem_append_right _
      (hdrained.mem_declaredNames.mpr ⟨helper, hhelper, rfl⟩)
  have hdeclarations : (∀ stmt ∈ declarations, stmt ∈ reportDeclarations) ∧
      (∀ declared ∈ declaredNames statements, declared = "success") ∧
      ∀ part ∈ blockParts statements,
        Alike factory (fun a _ => a ∈ consts) ["input"] part part := by
    by_cases hmode : mode = .validate
    · subst hmode
      obtain ⟨success, text, hsuccess, htext, rfl, rfl⟩ := gives_validate hgives
      obtain ⟨hflag, hresult⟩ := body_validate hhelpers hsuccess htext
      refine ⟨fun _ hstmt => hstmt, by simp [declaredNames, Stmt.declared?], ?_⟩
      have hflag := hflag (by simp [consts])
      have hresult := hresult (by simp [consts]) (by simp [consts])
      simp [blockParts, Stmt.parts, hflag, hresult]
    · obtain ⟨rfl, hplain, hparts⟩ := body_plain hhelpers hmode hgives
      refine ⟨fun _ hstmt => absurd hstmt List.not_mem_nil, ?_, hparts⟩
      rw [declaredNames_eq_nil hplain]
      exact fun _ hdeclared => absurd hdeclared List.not_mem_nil
  obtain ⟨hreport, hstatements, hparts⟩ := hdeclarations
  rcases (binds_artifactLiteral_iff (.mk factory definitions) hartifact).mp h
    with rfl | hdeclared | ⟨part, hmem, hpart⟩
  · exact .inl (.inl (by simp [parameters]))
  · rw [declaredNames_append, declaredNames_append, List.mem_append, List.mem_append] at hdeclared
    rcases hdeclared with (hdeclared | hdeclared) | hdeclared
    · obtain ⟨stmt, hstmt, hname⟩ := List.mem_filterMap.mp hdeclared
      have hmem := List.mem_filterMap.mpr ⟨stmt, hreport stmt hstmt, hname⟩
      simp only [reportDeclarations, Stmt.declared?, List.filterMap_cons, List.filterMap_nil,
        List.mem_cons, List.not_mem_nil, or_false] at hmem
      rcases hmem with rfl | rfl
      · exact .inr (.inr (by simp))
      · exact .inr (.inr (by simp))
    · obtain ⟨helper, -, rfl⟩ := hdrained.mem_declaredNames.mp hdeclared
      exact .inr (.inl ⟨_, _, rfl⟩)
    · rw [hstatements name hdeclared]
      exact .inr (.inr (by simp))
  · rw [blockParts_append, blockParts_append, List.mem_append, List.mem_append] at hmem
    rcases hmem with (hmem | hmem) | hmem
    · obtain ⟨stmt, hstmt, hmem⟩ := mem_blockParts.mp hmem
      rcases binds_reportDeclarations (mem_blockParts.mpr ⟨stmt, hreport stmt hstmt, hmem⟩) hpart
        with hlocal | rfl
      · exact .inl hlocal
      · exact .inr (.inr (by simp))
    · have halike : Alike factory (fun a _ => a ∈ consts) [] part part :=
        hdrained.like_themselves (List.subset_append_right _ _) (fun _ => by simp) part hmem
      exact .inl (halike.local_of_binds hpart)
    · exact .inl ((hparts part hmem).local_of_binds hpart)

/-- A name that generated code does not use. -/
theorem not_binds_core : ∀ name ∈ (Expr.identifier "core").identifiers,
    ¬ Binds (.identifier "core") name (artifact definitions (.identifier "core") mode type) := by
  intro name hname hbinds
  rw [Expr.identifiers, List.mem_singleton] at hname
  subst hname
  rcases binds_artifact hbinds with hlocal | hhelper | hfixed
  · have hhead := hlocal.head_mem
    simp at hhead
  · exact not_helperName_of_head (by simp) hhelper
  · simp [Scope.reporter] at hfixed

end

end TypedRoutes
