import TypedRoutes.Proofs.Runtime.Machine
import Mathlib.Data.List.Forall2

/-!
# Renaming

Two programs that differ in what some of their names are called. A renaming says which name of the
one stands for which name of the other; what closures and blocks bind stands for itself. Values are
renamed when the closures among them are, and growing arrays when they were made at the same point.
-/

namespace TypedRoutes

mutual

/-- The names that an expression mentions. -/
def Expr.identifiers : Expr → List String
  | .identifier name => [name]
  | .property target _ => target.identifiers
  | .element target index => target.identifiers ++ index.identifiers
  | .call callee _ arguments _ => callee.identifiers ++ Expr.identifiersOf arguments
  | .object entries => Entry.identifiersOf entries
  | .array elements => Expr.identifiersOf elements
  | .arrow _ body => body.identifiers
  | .unary _ operand => operand.identifiers
  | .binary _ left right => left.identifiers ++ right.identifiers
  | .conditional condition whenTrue whenFalse =>
    condition.identifiers ++ (whenTrue.identifiers ++ whenFalse.identifiers)
  | _ => []

/-- The names that expressions mention. -/
def Expr.identifiersOf : List Expr → List String
  | [] => []
  | expr :: rest => expr.identifiers ++ Expr.identifiersOf rest

/-- The names that the entries of an object literal mention. -/
def Entry.identifiersOf : List Entry → List String
  | [] => []
  | .mk _ value :: rest => value.identifiers ++ Entry.identifiersOf rest

/-- The names that the body of a closure mentions. -/
def Body.identifiers : Body → List String
  | .concise value => value.identifiers
  | .block statements => Stmt.identifiersOf statements

/-- The names that a statement mentions. -/
def Stmt.identifiers : Stmt → List String
  | .const _ value => value.identifiers
  | .branch condition consequent alternative =>
    condition.identifiers ++ (Stmt.identifiersOf consequent ++ Stmt.identifiersOf alternative)
  | .returns value => value.identifiers
  | .throws value => value.identifiers
  | .expression value => value.identifiers

/-- The names that the statements of a block mention. -/
def Stmt.identifiersOf : List Stmt → List String
  | [] => []
  | stmt :: rest => stmt.identifiers ++ Stmt.identifiersOf rest

end

/-- Which names of a program stand for which names of another. -/
abbrev Naming := String → String → Prop

namespace Naming

/-- Names that are bound stand for themselves and for nothing else. -/
def under (naming : Naming) (names : List String) : Naming := fun a b =>
  (a ∈ names ∧ a = b) ∨ (a ∉ names ∧ b ∉ names ∧ naming a b)

/-- The names stand for themselves. -/
def Keeps (naming : Naming) (names : List String) : Prop :=
  ∀ name ∈ names, naming name name

variable {naming : Naming}

/-- No names under which to rename. -/
theorem under_nil : naming.under [] = naming := by
  funext a b
  simp [under]

/-- Names under names are all of them together. -/
theorem under_under (inner outer : List String) :
    (naming.under outer).under inner = naming.under (inner ++ outer) := by
  funext a b
  refine propext ⟨?_, ?_⟩
  · rintro (⟨ha, rfl⟩ | ⟨ha, hb, ⟨houter, rfl⟩ | ⟨ha', hb', h⟩⟩)
    · exact .inl ⟨List.mem_append_left _ ha, rfl⟩
    · exact .inl ⟨List.mem_append_right _ houter, rfl⟩
    · exact .inr ⟨by simp [ha, ha'], by simp [hb, hb'], h⟩
  · rintro (⟨ha, rfl⟩ | ⟨ha, hb, h⟩)
    · by_cases hinner : a ∈ inner
      · exact .inl ⟨hinner, rfl⟩
      · exact .inr ⟨hinner, hinner, .inl ⟨(List.mem_append.mp ha).resolve_left hinner, rfl⟩⟩
    · rw [List.mem_append, not_or] at ha hb
      exact .inr ⟨ha.1, hb.1, .inr ⟨ha.2, hb.2, h⟩⟩

/-- The order in which names are bound does not matter. -/
theorem under_congr {names names' : List String} (h : ∀ name, name ∈ names ↔ name ∈ names') :
    naming.under names = naming.under names' := by
  funext a b
  simp only [under, h]

/-- A name that stands for itself does so under any names. -/
theorem under_self {name : String} (h : naming name name) (names : List String) :
    naming.under names name name := by
  by_cases hbound : name ∈ names
  · exact .inl ⟨hbound, rfl⟩
  · exact .inr ⟨hbound, hbound, h⟩

/-- What is kept is kept under more names. -/
theorem Keeps.under {mentioned : List String} (h : naming.Keeps mentioned)
    (names : List String) : (naming.under names).Keeps mentioned :=
  fun name hname => under_self (h name hname) names

/-- What is kept of two lists is kept of each. -/
theorem keeps_append {front back : List String} :
    naming.Keeps (front ++ back) ↔ naming.Keeps front ∧ naming.Keeps back :=
  List.forall_mem_append

end Naming

mutual

/-- The second expression is the first one with its names renamed. Calls are the same wherever they
stand. -/
inductive Expr.Renames : Naming → Expr → Expr → Prop where
  | identifier {naming : Naming} {a b : String} (h : naming a b) :
      Expr.Renames naming (.identifier a) (.identifier b)
  | property {naming : Naming} {target target' : Expr} (h : Expr.Renames naming target target')
      (name : String) : Expr.Renames naming (.property target name) (.property target' name)
  | element {naming : Naming} {target target' index index' : Expr}
      (h : Expr.Renames naming target target') (hi : Expr.Renames naming index index') :
      Expr.Renames naming (.element target index) (.element target' index')
  | call {naming : Naming} {callee callee' : Expr} {arguments arguments' : List Expr}
      {types types' : List TypeExpr} {span span' : Span} (h : Expr.Renames naming callee callee')
      (length : arguments.length = arguments'.length)
      (each : ∀ {a b}, (a, b) ∈ arguments.zip arguments' → Expr.Renames naming a b) :
      Expr.Renames naming (.call callee types arguments span)
        (.call callee' types' arguments' span')
  | string {naming : Naming} (value : String) : Expr.Renames naming (.string value) (.string value)
  | number {naming : Naming} (value : Float) : Expr.Renames naming (.number value) (.number value)
  | boolean {naming : Naming} (value : Bool) :
      Expr.Renames naming (.boolean value) (.boolean value)
  | null {naming : Naming} : Expr.Renames naming .null .null
  | object {naming : Naming} {entries entries' : List Entry}
      (keys : entries.map Entry.key = entries'.map Entry.key)
      (each : ∀ {a b}, (a, b) ∈ entries.zip entries' → Expr.Renames naming a.value b.value) :
      Expr.Renames naming (.object entries) (.object entries')
  | array {naming : Naming} {elements elements' : List Expr}
      (length : elements.length = elements'.length)
      (each : ∀ {a b}, (a, b) ∈ elements.zip elements' → Expr.Renames naming a b) :
      Expr.Renames naming (.array elements) (.array elements')
  | arrow {naming : Naming} {params : List String} {body body' : Body}
      (h : Body.Renames (naming.under params) body body') :
      Expr.Renames naming (.arrow params body) (.arrow params body')
  | unary {naming : Naming} {operand operand' : Expr} (op : UnaryOp)
      (h : Expr.Renames naming operand operand') :
      Expr.Renames naming (.unary op operand) (.unary op operand')
  | binary {naming : Naming} {left left' right right' : Expr} (op : BinaryOp)
      (hl : Expr.Renames naming left left') (hr : Expr.Renames naming right right') :
      Expr.Renames naming (.binary op left right) (.binary op left' right')
  | conditional {naming : Naming}
      {condition condition' whenTrue whenTrue' whenFalse whenFalse' : Expr}
      (h : Expr.Renames naming condition condition') (ht : Expr.Renames naming whenTrue whenTrue')
      (hf : Expr.Renames naming whenFalse whenFalse') :
      Expr.Renames naming (.conditional condition whenTrue whenFalse)
        (.conditional condition' whenTrue' whenFalse')

/-- The second body is the first one renamed. What is in a block keeps its names. -/
inductive Body.Renames : Naming → Body → Body → Prop where
  | concise {naming : Naming} {value value' : Expr} (h : Expr.Renames naming value value') :
      Body.Renames naming (.concise value) (.concise value')
  | block {naming : Naming} {statements : List Stmt}
      (h : naming.Keeps (Stmt.identifiersOf statements)) :
      Body.Renames naming (.block statements) (.block statements)

end

/-- The entries of an object literal and its renaming, one by one. -/
theorem Entry.renames_all {naming : Naming} {entries entries' : List Entry}
    (keys : entries.map Entry.key = entries'.map Entry.key)
    (each : ∀ {a b}, (a, b) ∈ entries.zip entries' → Expr.Renames naming a.value b.value) :
    List.Forall₂ (fun a b => a.key = b.key ∧ Expr.Renames naming a.value b.value) entries
      entries' := by
  have hkeys : List.Forall₂ (fun a b => a.key = b.key) entries entries' := by
    rwa [← List.forall₂_eq_eq_eq, List.forall₂_map_left_iff, List.forall₂_map_right_iff] at keys
  obtain ⟨length, hkey⟩ := List.forall₂_iff_zip.mp hkeys
  exact List.forall₂_iff_zip.mpr ⟨length, fun hmem => ⟨hkey hmem, each hmem⟩⟩

/-! An expression whose names stand for themselves is its own renaming. -/

mutual

/-- An expression is its own renaming where its names are kept. -/
theorem Expr.renames_self {naming : Naming} (expr : Expr) (h : naming.Keeps expr.identifiers) :
    Expr.Renames naming expr expr := by
  cases expr with
  | identifier name =>
    rw [Expr.identifiers] at h
    exact .identifier (h name List.mem_cons_self)
  | property target name =>
    rw [Expr.identifiers] at h
    exact .property (target.renames_self h) name
  | element target index =>
    rw [Expr.identifiers, Naming.keeps_append] at h
    exact .element (target.renames_self h.1) (index.renames_self h.2)
  | call callee types arguments span =>
    rw [Expr.identifiers, Naming.keeps_append] at h
    obtain ⟨length, each⟩ := List.forall₂_iff_zip.mp (Expr.renames_selves arguments h.2)
    exact .call (callee.renames_self h.1) length each
  | string value => exact .string value
  | number value => exact .number value
  | boolean value => exact .boolean value
  | null => exact .null
  | object entries =>
    rw [Expr.identifiers] at h
    obtain ⟨-, each⟩ := List.forall₂_iff_zip.mp (Entry.renames_selves entries h)
    exact .object rfl each
  | array elements =>
    rw [Expr.identifiers] at h
    obtain ⟨length, each⟩ := List.forall₂_iff_zip.mp (Expr.renames_selves elements h)
    exact .array length each
  | arrow params body =>
    rw [Expr.identifiers] at h
    exact .arrow (body.renames_self (h.under params))
  | unary op operand =>
    rw [Expr.identifiers] at h
    exact .unary op (operand.renames_self h)
  | binary op left right =>
    rw [Expr.identifiers, Naming.keeps_append] at h
    exact .binary op (left.renames_self h.1) (right.renames_self h.2)
  | conditional condition whenTrue whenFalse =>
    rw [Expr.identifiers, Naming.keeps_append, Naming.keeps_append] at h
    exact .conditional (condition.renames_self h.1) (whenTrue.renames_self h.2.1)
      (whenFalse.renames_self h.2.2)

/-- The same for several expressions. -/
theorem Expr.renames_selves {naming : Naming} (exprs : List Expr)
    (h : naming.Keeps (Expr.identifiersOf exprs)) :
    List.Forall₂ (Expr.Renames naming) exprs exprs := by
  cases exprs with
  | nil => exact .nil
  | cons expr rest =>
    rw [Expr.identifiersOf, Naming.keeps_append] at h
    exact .cons (expr.renames_self h.1) (Expr.renames_selves rest h.2)

/-- The same for the entries of an object. -/
theorem Entry.renames_selves {naming : Naming} (entries : List Entry)
    (h : naming.Keeps (Entry.identifiersOf entries)) :
    List.Forall₂ (fun a b => Expr.Renames naming a.value b.value) entries entries := by
  match entries with
  | [] => exact .nil
  | .mk key value :: rest =>
    rw [Entry.identifiersOf, Naming.keeps_append] at h
    exact .cons (value.renames_self h.1) (Entry.renames_selves rest h.2)

/-- The same for the body of a closure. -/
theorem Body.renames_self {naming : Naming} (body : Body) (h : naming.Keeps body.identifiers) :
    Body.Renames naming body body := by
  cases body with
  | concise value =>
    rw [Body.identifiers] at h
    exact .concise (value.renames_self h)
  | block statements =>
    rw [Body.identifiers] at h
    exact .block h

end

namespace Runtime

/-- Two runs side by side: the names that they start from, with the heaps that they start from, and
which of these names stand for which. -/
structure Linkage where
  naming : Naming
  base : Env
  base' : Env
  lead : Heap
  lead' : Heap

mutual

/-- The second value is the first one renamed. -/
inductive Value.Renames (link : Linkage) : Value → Value → Prop where
  | data (value : Data) : Value.Renames link (.data value) (.data value)
  | closure {naming : Naming} {params : List String} {body body' : Body} {env env' : Env}
      (henv : Env.Renames link naming env env')
      (hbody : Body.Renames (naming.under params) body body') :
      Value.Renames link (.closure params body env) (.closure params body' env')
  | cell (position : Nat) :
      Value.Renames link (.cell (link.lead.length + position))
        (.cell (link.lead'.length + position))
  | record {members members' : List (String × Value)}
      (keys : members.map Prod.fst = members'.map Prod.fst)
      (each : List.Forall₂ (Value.Renames link) (members.map Prod.snd) (members'.map Prod.snd)) :
      Value.Renames link (.record members) (.record members')

/-- The names were bound to values that are renamed, on top of those that the runs started from. The
second run may bind more, under names that stand for none of the first one's. -/
inductive Env.Renames (link : Linkage) : Naming → Env → Env → Prop where
  | base : Env.Renames link link.naming link.base link.base'
  | bind {naming : Naming} {env env' : Env} {value value' : Value} (name : String)
      (h : Value.Renames link value value') (henv : Env.Renames link naming env env') :
      Env.Renames link (naming.under [name]) (.bind name value env) (.bind name value' env')
  | beside {naming : Naming} {env env' : Env} {name : String} (fresh : ∀ a, ¬ naming a name)
      (value : Value) (henv : Env.Renames link naming env env') :
      Env.Renames link naming env (.bind name value env')
  | functions {naming : Naming} {env env' : Env} {declared : List Declared}
      (kept : ∀ function ∈ declared,
        (naming.under (declared.map Declared.name)).Keeps function.body.identifiers)
      (henv : Env.Renames link naming env env') :
      Env.Renames link (naming.under (declared.map Declared.name)) (.functions declared env)
        (.functions declared env')

end

/-- The names that the runs start from are linked: those that stand for one another are bound to
values that are renamed, or are one name that is bound on neither side. -/
def Linkage.Linked (link : Linkage) : Prop :=
  ∀ a b, link.naming a b → (a = b ∧ link.base.lookup? a = none ∧ link.base'.lookup? b = none) ∨
    ∃ value value', link.base.lookup? a = some value ∧ link.base'.lookup? b = some value' ∧
      Value.Renames link value value'

variable {link : Linkage}

namespace Value.Renames

variable {value value' : Value} {values values' : List Value}

/-- Renamed values are truthy alike. -/
theorem truthy_eq (h : Value.Renames link value value') : value.truthy = value'.truthy := by
  cases h <;> rfl

/-- Renamed values have the same run-time type. -/
theorem typeName_eq (h : Value.Renames link value value') : value.typeName = value'.typeName := by
  cases h <;> rfl

/-- Renamed values are the same data, if they are data. -/
theorem data?_eq (h : Value.Renames link value value') : value.data? = value'.data? := by
  cases h <;> rfl

/-- The same for several values. -/
theorem allData?_eq (h : List.Forall₂ (Value.Renames link) values values') :
    allData? values = allData? values' := by
  induction h with
  | nil => rfl
  | cons h _ ih =>
    simp only [allData?] at ih
    simp only [allData?, List.mapM_cons, h.data?_eq, ih]

/-- Objects of renamed members are renamed. -/
theorem makeObject {members members' : List (String × Value)}
    (h : List.Forall₂ (fun a b => a.1 = b.1 ∧ Value.Renames link a.2 b.2) members members') :
    Value.Renames link (makeObject members) (Runtime.makeObject members') := by
  have keys : members.map Prod.fst = members'.map Prod.fst := by
    rw [← List.forall₂_eq_eq_eq, List.forall₂_map_left_iff, List.forall₂_map_right_iff]
    exact h.imp fun _ _ hmember => hmember.1
  have each : List.Forall₂ (Value.Renames link) (members.map Prod.snd)
      (members'.map Prod.snd) := by
    rw [List.forall₂_map_left_iff, List.forall₂_map_right_iff]
    exact h.imp fun _ _ hmember => hmember.2
  simp only [Runtime.makeObject, allData?_eq each, keys]
  split
  · exact .data _
  · exact .record keys each

end Value.Renames

/-- What stands for one another has values that are renamed, or is one name that is bound on neither
side. -/
theorem Env.Renames.lookup? (hlinked : link.Linked) {naming : Naming} {env env' : Env}
    (h : Env.Renames link naming env env') {a b : String} (hname : naming a b) :
    (a = b ∧ env.lookup? a = none ∧ env'.lookup? b = none) ∨
      ∃ value value', env.lookup? a = some value ∧ env'.lookup? b = some value' ∧
        Value.Renames link value value' := by
  match h with
  | .base => exact hlinked a b hname
  | .bind name hvalue henv =>
    rcases hname with ⟨ha, rfl⟩ | ⟨ha, hb, hname⟩
    · rw [List.mem_singleton.mp ha]
      exact .inr ⟨_, _, by simp [Env.lookup?], by simp [Env.lookup?], hvalue⟩
    · rw [List.mem_singleton] at ha hb
      simpa [Env.lookup?, Ne.symm ha, Ne.symm hb] using henv.lookup? hlinked hname
  | @Env.Renames.beside _ _ _ _ name fresh value henv =>
    have hne : name ≠ b := by
      rintro rfl
      exact fresh a hname
    simpa [Env.lookup?, hne] using henv.lookup? hlinked hname
  | @Env.Renames.functions _ _ _ _ declared kept henv =>
    have hfind (name : String) :
        Declared.find? declared name = none ↔ name ∉ declared.map Declared.name := by
      simp [Declared.find?]
    rcases hname with ⟨ha, rfl⟩ | ⟨ha, hb, hname⟩
    · obtain ⟨function, hfunction⟩ :=
        Option.ne_none_iff_exists'.mp (mt (hfind a).mp (not_not.mpr ha))
      have hfound (outer : Env) : (Env.functions declared outer).lookup? a =
          some (.closure function.params function.body (.functions declared outer)) := by
        rw [Env.lookup?, hfunction]
      have hbody := (kept _ (List.mem_of_find?_eq_some hfunction)).under function.params
      exact .inr ⟨_, _, hfound _, hfound _,
        .closure (.functions kept henv) (function.body.renames_self hbody)⟩
    · simpa [Env.lookup?, (hfind a).mpr ha, (hfind b).mpr hb] using henv.lookup? hlinked hname

/-- Parameters are bound to renamed arguments. -/
theorem Env.Renames.bindAll {naming : Naming} {env env' : Env} {values values' : List Value}
    (params : List String) (henv : Env.Renames link naming env env')
    (hvalues : List.Forall₂ (Value.Renames link) values values') :
    Env.Renames link (naming.under params) (.bindAll params values env)
      (.bindAll params values' env') := by
  induction params generalizing naming env env' values values' with
  | nil =>
    rw [Naming.under_nil, Env.bindAll, Env.bindAll]
    exact henv
  | cons param rest ih =>
    have horder : naming.under (param :: rest) = (naming.under [param]).under rest := by
      rw [Naming.under_under]
      exact Naming.under_congr fun name => by simp [or_comm]
    rw [horder]
    cases hvalues with
    | nil => exact ih (.bind param (.data .undefined) henv) .nil
    | cons hvalue hrest => exact ih (.bind param hvalue henv) hrest

end Runtime

end TypedRoutes
