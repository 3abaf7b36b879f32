import TypedRoutes.Proofs.Unit.Numbers
import TypedRoutes.Proofs.Unit.Syntax
import TypedRoutes.Proofs.Unit.Types

/-!
# Units that are read back

The text of a unit is read as the unit: its file names have to be texts and its numbers have to be
kept, the text may not nest deeper than readers go, and every name that its types refer to needs a
definition. A unit with another file name is stored as the empty text, which is no unit.
-/

namespace TypedRoutes

open Json

/-! ## Tagged records -/

/-- The members behind the tag only have to be well formed. -/
theorem foldlM_checkTaggedMember {budget : Nat} {names : List String} {named : Bool} :
    ∀ {members : List (String × Json)}, (∀ member ∈ members, member.1 ≠ "kind") →
      ExactMembers members → nestingOfMembers members ≤ budget →
        (memberDrafts members).foldlM (checkTaggedMember budget names) named = .ok named
  | [], _, _, _ => rfl
  | (key, value) :: rest, hkeys, hexact, hnesting => by
    rw [nestingOfMembers, Nat.max_le] at hnesting
    obtain ⟨hkey, hrest⟩ := List.forall_mem_cons.mp hkeys
    rw [memberDrafts, List.foldlM_cons, checkTaggedMember, if_neg hkey,
      toJson_draft hexact.1 hnesting.1]
    exact foldlM_checkTaggedMember hrest hexact.2 hnesting.2

/-- A tagged record is taken as a whole and read from there. -/
theorem readTagged_draft {α : Type} {names : List String} {ofJson? : Nat → Json → Option α}
    {budget : Nat} {shape : String} {members : List (String × Json)}
    (hshape : names.contains shape = true) (hkeys : ∀ member ∈ members, member.1 ≠ "kind")
    (hexact : (taggedJson shape members).Exact)
    (hnesting : (taggedJson shape members).nesting ≤ budget) :
    readTagged names ofJson? budget (taggedJson shape members).draft =
      Draft.required (ofJson? budget (taggedJson shape members)) := by
  have hcheck : checkTagged budget names (taggedJson shape members).draft = .ok () := by
    rw [taggedJson, nesting, nestingOfMembers] at hnesting
    obtain ⟨budget, rfl⟩ : ∃ inner, budget = inner + 1 := ⟨budget - 1, by omega⟩
    have hshapeRead : readShapeName names (.string (some shape)) = .ok shape := by
      simp only [readShapeName, Draft.text, bind, Except.bind, hshape, if_true]
      rfl
    have hmembers : (memberDrafts members).foldlM (checkTaggedMember budget names) true =
        .ok true :=
      foldlM_checkTaggedMember hkeys hexact.2 (by omega)
    rw [taggedJson, draft, memberDrafts, checkTagged, List.foldlM_cons, checkTaggedMember,
      if_pos rfl, draft, hshapeRead]
    simp only [Bool.false_eq_true, if_false, bind, Except.bind, discard, Functor.discard,
      Functor.mapConst, pure, Except.pure, Function.comp, Except.map, hmembers, Draft.closed]
  rw [readTagged, hcheck, toJson_draft hexact hnesting]
  rfl

/-- An expression is written as a tagged record of a known shape. -/
theorem Expr.toJson_tagged (expr : Expr) : ∃ shape members,
    Expr.shapeNames.contains shape = true ∧ (∀ member ∈ members, member.1 ≠ "kind") ∧
      expr.toJson = taggedJson shape members := by
  cases expr with
  | call callee typeArguments arguments span =>
    refine ⟨_, _, ?_, ?_, by rw [Expr.toJson]⟩
    · decide
    · cases TypeExpr.toJsons typeArguments <;> simp [memberUnlessEmpty]
  | _ =>
    refine ⟨_, _, ?_, ?_, by rw [Expr.toJson]⟩
    · decide
    · simp

variable {budget : Nat}

theorem Expr.read_draft {expr : Expr} (hexact : expr.toJson.Exact)
    (hnesting : expr.toJson.nesting ≤ budget) : Expr.read budget expr.toJson.draft = .ok expr := by
  have hread := Expr.ofJson?_toJson hnesting
  obtain ⟨shape, members, hshape, hkeys, htagged⟩ := expr.toJson_tagged
  rw [htagged] at hexact hnesting hread ⊢
  rw [Expr.read, readTagged_draft hshape hkeys hexact hnesting, hread]
  rfl

/-! ## Lists and maps -/

/-- A list is read back if each of its items is. -/
theorem list_draft {α : Type} {read : Nat → Reading α} {write : α → Json} {items : List α}
    (h : ∀ item ∈ items, read budget (write item).draft = .ok item) :
    Draft.list (budget + 1) read (Json.array (items.map write)).draft = .ok items := by
  refine Draft.list_of_mapM ?_
  induction items with
  | nil => rfl
  | cons item rest ih =>
    obtain ⟨hitem, hrest⟩ := List.forall_mem_cons.mp h
    rw [List.map_cons, itemDrafts, List.mapM_cons, hitem, ih hrest]
    rfl

namespace KeyMap

variable {α : Type}

/-- An entry behind all others is put at the end. -/
theorem insertEntry_last {key : String} {value : α} {entries : List (String × α)}
    (h : ∀ entry ∈ entries, entry.1 < key) :
    insertEntry key value entries = entries ++ [(key, value)] := by
  induction entries with
  | nil => rfl
  | cons head rest ih =>
    obtain ⟨hhead, hrest⟩ := List.forall_mem_cons.mp h
    have hne : key ≠ head.1 := fun heq => String.lt_irrefl _ (heq ▸ hhead)
    rw [insertEntry, if_neg (String.lt_asymm hhead), if_neg hne, ih hrest]
    rfl

/-- A map is read back if each of its values is: in key order, every entry goes to the end. -/
theorem read_draft {read : Nat → Reading α} {write : α → Json} {map : KeyMap α}
    (h : ∀ entry ∈ map.entries, read budget (write entry.2).draft = .ok entry.2) :
    Draft.keyMap (budget + 1) read (map.toJson write).draft = .ok map := by
  have hfold : ∀ (before : KeyMap α) (entries : List (String × α)),
      (before.entries ++ entries).Pairwise (fun a b => a.1 < b.1) →
      (∀ entry ∈ entries, read budget (write entry.2).draft = .ok entry.2) →
      ∃ after : KeyMap α, after.entries = before.entries ++ entries ∧
        (memberDrafts (entries.map fun entry => (entry.1, write entry.2))).foldlM
          (Draft.mapMember (read budget)) before = .ok after := by
    intro before entries
    induction entries generalizing before with
    | nil => exact fun _ _ => ⟨before, by simp, rfl⟩
    | cons entry rest ih =>
      intro hsorted hread
      obtain ⟨hentry, hrest⟩ := List.forall_mem_cons.mp hread
      have hbehind : ∀ other ∈ before.entries, other.1 < entry.1 := fun other hmem =>
        (List.pairwise_append.mp hsorted).2.2 other hmem entry (by simp)
      have hinsert : (before.insert entry.1 entry.2).entries = before.entries ++ [entry] :=
        insertEntry_last hbehind
      obtain ⟨after, hafter, hrun⟩ := ih (before.insert entry.1 entry.2)
        (by rw [hinsert]; simpa using hsorted) hrest
      refine ⟨after, by rw [hafter, hinsert]; simp, ?_⟩
      rw [List.map_cons, memberDrafts, List.foldlM_cons, Draft.mapMember, hentry]
      exact hrun
  obtain ⟨after, hafter, hrun⟩ := hfold .empty map.entries (by simpa [empty] using map.sorted) h
  have hmap : after = map := by
    cases after
    cases map
    simpa [empty] using hafter
  rw [toJson, draft, Draft.keyMap, hrun, hmap]
  rfl

end KeyMap

/-- What is written as an object is not mistaken for a missing value. -/
theorem optional_draft {α : Type} {read : Reading α} {json : Json} {value : α}
    (hobject : ∃ members, json = .object members) (h : read json.draft = .ok value) :
    Draft.optional read json.draft = .ok (some value) := by
  obtain ⟨members, rfl⟩ := hobject
  rw [draft] at h ⊢
  rw [Draft.optional, h]
  · rfl
  · exact nofun

/-! ## Units -/

theorem Decorator.read_draft {decorator : Decorator} (hexact : decorator.toJson.Exact)
    (hnesting : decorator.toJson.nesting ≤ budget) :
    Decorator.read budget decorator.toJson.draft = .ok decorator := by
  simp only [Decorator.toJson, nesting, nestingOfMembers] at hnesting
  obtain ⟨budget, rfl⟩ : ∃ inner, budget = inner + 1 := ⟨budget - 1, by omega⟩
  have hexpression : Expr.read budget decorator.expression.toJson.draft =
      .ok decorator.expression :=
    Expr.read_draft hexact.1 (by omega)
  simp [Decorator.toJson, draft, memberDrafts, Decorator.read, Draft.record, Draft.recordMember,
    hexpression, Draft.closed, Draft.required, bind, Except.bind, pure, Except.pure]

/-- A name that is a text is shown as that text. -/
theorem ByteText.text_shown :
    ∀ {name : ByteText}, name.text?.isSome = true → .text name.shown = name
  | .text _, _ => rfl
  | .malformed _ _, h => by cases h

/-- A declaration is read back if its file name is a text. -/
theorem Declaration.read_draft {declaration : Declaration}
    (hname : declaration.fileName.text?.isSome = true) :
    Declaration.read (budget + 1) declaration.toJson.draft = .ok declaration := by
  simp [Declaration.toJson, draft, memberDrafts, Declaration.read, Draft.record, Draft.recordMember,
    Draft.text, Draft.closed, Draft.required, bind, Except.bind, pure, Except.pure,
    ByteText.text_shown hname]

theorem MethodDeclaration.read_draft {method : MethodDeclaration} (hexact : method.toJson.Exact)
    (hnesting : method.toJson.nesting ≤ budget) :
    MethodDeclaration.read budget method.toJson.draft = .ok method := by
  obtain ⟨name, decorators, returnType?⟩ := method
  simp only [MethodDeclaration.toJson, nesting, nestingOfMembers, List.cons_append,
    List.nil_append] at hnesting
  obtain ⟨budget, rfl⟩ : ∃ inner, budget = inner + 2 := ⟨budget - 2, by omega⟩
  have hdecorators : Draft.list (budget + 1) Decorator.read
      (Json.array (decorators.map Decorator.toJson)).draft = .ok decorators :=
    list_draft fun decorator hmem =>
      Decorator.read_draft (exactItems_iff.mp hexact.2.1 _ (List.mem_map_of_mem hmem))
        (nestingOfItems_le.mp (by omega) _ (List.mem_map_of_mem hmem))
  rw [draft] at hdecorators
  cases returnType? with
  | none =>
    simp [MethodDeclaration.toJson, memberIfPresent, draft, memberDrafts, MethodDeclaration.read,
      Draft.record, Draft.recordMember, Draft.text, hdecorators, Draft.closed, Draft.required, bind,
      Except.bind, pure, Except.pure]
  | some type =>
    simp only [Option.map_some, memberIfPresent, nestingOfMembers] at hnesting
    have htype : Draft.optional (Ty.read (budget + 1)) type.toJson.draft = .ok (some type) :=
      optional_draft (by cases type; exact ⟨_, rfl⟩) (Ty.read_draft hexact.2.2.1 (by omega))
    simp [MethodDeclaration.toJson, memberIfPresent, draft, memberDrafts, MethodDeclaration.read,
      Draft.record, Draft.recordMember, Draft.text, hdecorators, htype, Draft.closed,
      Draft.required, bind, Except.bind, pure, Except.pure]

theorem ClassDeclaration.read_draft {declaration : ClassDeclaration}
    (hexact : declaration.toJson.Exact) (hnesting : declaration.toJson.nesting ≤ budget) :
    ClassDeclaration.read budget declaration.toJson.draft = .ok declaration := by
  simp only [ClassDeclaration.toJson, nesting, nestingOfMembers] at hnesting
  obtain ⟨budget, rfl⟩ : ∃ inner, budget = inner + 2 := ⟨budget - 2, by omega⟩
  have hmethods : Draft.list (budget + 1) MethodDeclaration.read
      (Json.array (declaration.methods.map MethodDeclaration.toJson)).draft =
        .ok declaration.methods :=
    list_draft fun method hmem =>
      MethodDeclaration.read_draft (exactItems_iff.mp hexact.2.1 _ (List.mem_map_of_mem hmem))
        (nestingOfItems_le.mp (by omega) _ (List.mem_map_of_mem hmem))
  rw [draft] at hmethods
  simp [ClassDeclaration.toJson, draft, memberDrafts, ClassDeclaration.read, Draft.record,
    Draft.recordMember, Draft.text, hmethods, Draft.closed, Draft.required, bind, Except.bind, pure,
    Except.pure]

/-- A source file is read back if its name is a text. -/
theorem SourceFile.read_draft {file : SourceFile} (hname : file.fileName.text?.isSome = true)
    (hexact : file.toJson.Exact) (hnesting : file.toJson.nesting ≤ budget) :
    SourceFile.read budget file.toJson.draft = .ok file := by
  simp only [SourceFile.toJson, nesting, nestingOfMembers] at hnesting
  obtain ⟨budget, rfl⟩ : ∃ inner, budget = inner + 2 := ⟨budget - 2, by omega⟩
  have hclasses : Draft.list (budget + 1) ClassDeclaration.read
      (Json.array (file.classes.map ClassDeclaration.toJson)).draft = .ok file.classes :=
    list_draft fun declaration hmem =>
      ClassDeclaration.read_draft (exactItems_iff.mp hexact.2.1 _ (List.mem_map_of_mem hmem))
        (nestingOfItems_le.mp (by omega) _ (List.mem_map_of_mem hmem))
  rw [draft] at hclasses
  simp [SourceFile.toJson, draft, memberDrafts, SourceFile.read, Draft.record, Draft.recordMember,
    Draft.text, hclasses, Draft.closed, Draft.required, bind, Except.bind, pure, Except.pure,
    ByteText.text_shown hname]

/-- A table of types is read back. -/
theorem read_types {table : KeyMap Ty} (hexact : (table.toJson Ty.toJson).Exact)
    (hnesting : (table.toJson Ty.toJson).nesting ≤ budget) :
    Draft.keyMap budget Ty.read (table.toJson Ty.toJson).draft = .ok table := by
  rw [KeyMap.toJson, nesting] at hnesting
  obtain ⟨budget, rfl⟩ : ∃ inner, budget = inner + 1 := ⟨budget - 1, by omega⟩
  rw [KeyMap.toJson] at hexact
  exact KeyMap.read_draft fun entry hmem =>
    Ty.read_draft (exactMembers_iff.mp hexact _ (List.mem_map_of_mem hmem))
      (nestingOfMembers_le.mp (Nat.le_of_succ_le_succ hnesting) _ (List.mem_map_of_mem hmem))

/-- The recorded declarations are read back, a missing one as null. -/
theorem read_symbols {symbols : KeyMap (Option Declaration)}
    (hnames : ∀ entry ∈ symbols.entries, ∀ declaration ∈ entry.2,
      declaration.fileName.text?.isSome = true)
    (hnesting : (symbols.toJson (orNull Declaration.toJson)).nesting ≤ budget) :
    Draft.keyMap budget (fun budget draft => draft.optional (Declaration.read budget))
      (symbols.toJson (orNull Declaration.toJson)).draft = .ok symbols := by
  rw [KeyMap.toJson, nesting] at hnesting
  obtain ⟨budget, rfl⟩ : ∃ inner, budget = inner + 1 := ⟨budget - 1, by omega⟩
  refine KeyMap.read_draft fun entry hmem => ?_
  have hentry :=
    nestingOfMembers_le.mp (Nat.le_of_succ_le_succ hnesting) _ (List.mem_map_of_mem hmem)
  cases hvalue : entry.2 with
  | none => rfl
  | some declaration =>
    simp only [hvalue, orNull, Declaration.toJson, nesting] at hentry
    obtain ⟨budget, rfl⟩ : ∃ inner, budget = inner + 1 := ⟨budget - 1, by omega⟩
    exact optional_draft ⟨_, rfl⟩ (Declaration.read_draft (hnames entry hmem declaration hvalue))

/-- A snapshot is read back if the files of its declarations have names that are texts. -/
theorem Snapshot.read_draft {snapshot : Snapshot}
    (hnames : ∀ entry ∈ snapshot.symbols.entries, ∀ declaration ∈ entry.2,
      declaration.fileName.text?.isSome = true) (hexact : snapshot.toJson.Exact)
    (hnesting : snapshot.toJson.nesting ≤ budget) :
    Snapshot.read budget snapshot.toJson.draft = .ok snapshot := by
  simp only [Snapshot.toJson, nesting, nestingOfMembers] at hnesting
  obtain ⟨budget, rfl⟩ : ∃ inner, budget = inner + 1 := ⟨budget - 1, by omega⟩
  have hsymbols := read_symbols hnames (by omega : (snapshot.symbols.toJson _).nesting ≤ budget)
  have hvalues := read_types hexact.2.1 (by omega : _ ≤ budget)
  have hdefinitions := read_types hexact.2.2.1 (by omega : _ ≤ budget)
  simp [Snapshot.toJson, draft, memberDrafts, Snapshot.read, Draft.record, Draft.recordMember,
    hsymbols, hvalues, hdefinitions, Draft.closed, bind, Except.bind, pure, Except.pure]

/-- Whether all file names in a unit are texts. -/
def CompilationUnit.Named (unit : CompilationUnit) : Prop :=
  ∀ name ∈ unit.fileNames, name.text?.isSome = true

instance (unit : CompilationUnit) : Decidable unit.Named :=
  inferInstanceAs (Decidable (∀ name ∈ unit.fileNames, name.text?.isSome = true))

/-- The names of a unit are that of its source file and those of its declarations. -/
theorem CompilationUnit.named_iff {unit : CompilationUnit} :
    unit.Named ↔ unit.source.fileName.text?.isSome = true ∧
      ∀ entry ∈ unit.types.symbols.entries, ∀ declaration ∈ entry.2,
        declaration.fileName.text?.isSome = true := by
  simp only [Named, fileNames, List.forall_mem_cons, List.mem_filterMap, Option.map_eq_some_iff]
  constructor
  · rintro ⟨hsource, hsymbols⟩
    exact ⟨hsource, fun entry hentry declaration hdeclaration =>
      hsymbols _ ⟨entry, hentry, declaration, hdeclaration, rfl⟩⟩
  · rintro ⟨hsource, hsymbols⟩
    refine ⟨hsource, ?_⟩
    rintro _ ⟨entry, hentry, declaration, hdeclaration, rfl⟩
    exact hsymbols entry hentry declaration hdeclaration

/-- A unit has a JSON form to be stored in exactly if its names are texts. -/
theorem CompilationUnit.toJson?_eq_some {unit : CompilationUnit} {json : Json} :
    unit.toJson? = some json ↔ unit.Named ∧ unit.toJson = json := by
  rw [toJson?]
  split
  next hall =>
    exact ⟨fun h => ⟨List.all_eq_true.mp hall, Option.some.inj h⟩, fun h => congrArg some h.2⟩
  next hall => exact ⟨fun h => (by cases h), fun h => absurd (List.all_eq_true.mpr h.1) hall⟩

/-- A unit is stored as its JSON form if its names are texts. -/
theorem CompilationUnit.Named.toText {unit : CompilationUnit} (h : unit.Named) :
    unit.toText = unit.toJson.print := by
  rw [CompilationUnit.toText, toJson?_eq_some.mpr ⟨h, rfl⟩]
  rfl

/-- The empty text is no document. -/
theorem CompilationUnit.ofText_empty :
    CompilationUnit.ofText "" = .error (.json .truncated) := by
  have hread : Draft.read "" = (.broken (.clear .truncated), none) := by
    rw [Draft.read, String.toList_empty, Reader.run]
    rfl
  rw [CompilationUnit.ofText, readDocument, hread]
  rfl

theorem CompilationUnit.read_draft {unit : CompilationUnit} (hnamed : unit.Named)
    (hexact : unit.toJson.Exact) (hnesting : unit.toJson.nesting ≤ budget) :
    CompilationUnit.read budget unit.toJson.draft = .ok unit := by
  obtain ⟨hsource, hsymbols⟩ := CompilationUnit.named_iff.mp hnamed
  simp only [CompilationUnit.toJson, nesting, nestingOfMembers] at hnesting
  obtain ⟨budget, rfl⟩ : ∃ inner, budget = inner + 1 := ⟨budget - 1, by omega⟩
  have hsource := SourceFile.read_draft hsource hexact.1 (by omega : _ ≤ budget)
  have htypes := Snapshot.read_draft hsymbols hexact.2.1 (by omega : _ ≤ budget)
  simp [CompilationUnit.toJson, draft, memberDrafts, CompilationUnit.read, Draft.record,
    Draft.recordMember, hsource, htypes, Draft.closed, Draft.required, bind, Except.bind, pure,
    Except.pure]

/-- A unit is read back from the text it is stored as: nothing of it is lost or changed, whatever it
holds, as long as it has a JSON form that nests no deeper than readers go, the text of each of its
numbers is read as that number, and its types refer to nothing unknown. A unit has no JSON form only
if one of its file names is no text; it is then stored as the empty text, which no reader takes. -/
theorem CompilationUnit.ofText_toText (unit : CompilationUnit) :
    (∀ json, unit.toJson? = some json → json.nesting ≤ nestingBudget → Every Kept unit.numbers →
      unit.types.unknownReference? = none → CompilationUnit.ofText unit.toText = .ok unit) ∧
    (unit.toJson? = none → (∃ name ∈ unit.fileNames, name.text? = none) ∧ unit.toText = "" ∧
      CompilationUnit.ofText unit.toText = .error (.json .truncated)) := by
  constructor
  · intro json hjson hnesting hkept hknown
    obtain ⟨hnamed, rfl⟩ := CompilationUnit.toJson?_eq_some.mp hjson
    have hexact := CompilationUnit.exact_toJson hkept
    have hdocument : readDocument CompilationUnit.read unit.toText = .ok unit := by
      rw [readDocument, hnamed.toText, read_print]
      simp only [CompilationUnit.read_draft hnamed hexact hnesting, Draft.closed, bind, Except.bind,
        pure, Except.pure]
    rw [CompilationUnit.ofText, hdocument]
    simp only [Except.mapError, bind, Except.bind, hknown]
    rfl
  · intro hjson
    have hunnamed : ¬ unit.Named := fun hnamed => by
      rw [CompilationUnit.toJson?_eq_some.mpr ⟨hnamed, rfl⟩] at hjson
      cases hjson
    have hempty : unit.toText = "" := by
      rw [CompilationUnit.toText, hjson]
      rfl
    simp only [CompilationUnit.Named, not_forall, Option.not_isSome_iff_eq_none] at hunnamed
    obtain ⟨name, hname, htext⟩ := hunnamed
    exact ⟨⟨name, hname, htext⟩, hempty, hempty ▸ CompilationUnit.ofText_empty⟩

/-- A unit whose decorator, return type, symbols and definitions use most shapes of the format. -/
def countersUnit : CompilationUnit where
  source := {
    fileName := "counters.ts"
    classes := [{
      name := "CountersController"
      methods := [{
        name := "latest"
        decorators := [⟨.call (.property (.identifier "TypedRoute") "Get") []
          [.string "latest", .object [.mk "ratio" (.number 1.5)],
            .arrow ["input"] (.block [.branch (.identifier "input") [.returns .null] []])]
              ⟨40, 73⟩⟩]
        returnType? := some (TyKind.promise (TyKind.reference "Counter").type).type }] }] }
  types := {
    symbols := .ofList [("TypedRoute", none), ("Guard", some ⟨"guard.d.ts", "Guard"⟩)]
    definitions := .ofList [("Counter", .mk (.object [
      .mk "value" (TyKind.union [TyKind.number.type, (TyKind.literalNumber 0).type]).type true
        (some "The value."),
      .mk "next" (TyKind.reference "Counter").type false none]) (some "Counter"))] }

/-- A unit without classes whose file has a name that is no text. -/
def namelessUnit : CompilationUnit where
  source := { fileName := .malformed [0xff] (by decide +kernel) }

theorem ofText_countersUnit :
    countersUnit.toJson? = some countersUnit.toJson ∧ countersUnit.toJson.nesting ≤ nestingBudget ∧
      Every Kept countersUnit.numbers ∧ countersUnit.types.unknownReference? = none ∧
      CompilationUnit.ofText countersUnit.toText = .ok countersUnit ∧
      namelessUnit.toJson? = none ∧
        CompilationUnit.ofText namelessUnit.toText = .error (.json .truncated) := by
  have hjson : countersUnit.toJson? = some countersUnit.toJson :=
    CompilationUnit.toJson?_eq_some.mpr ⟨by decide +kernel, rfl⟩
  have hkept : Every Kept countersUnit.numbers := by
    have hone : Kept 1.5 := kept_iff.mpr (by decide +kernel)
    have hzero : Kept 0 := kept_iff.mpr (by decide +kernel)
    simp [Every, countersUnit, CompilationUnit.numbers, SourceFile.numbers,
      MethodDeclaration.numbers, Expr.numbers, Expr.numbersOf, Entry.numbersOf, Body.numbers,
      Stmt.numbersOf, Stmt.numbers, Ty.numbers, TyKind.numbers, TyKind.type, KeyMap.ofList,
      KeyMap.empty, KeyMap.insert, KeyMap.insertEntry, Ty.numbersOf, TyProperty.numbersOf, hone,
      hzero]
  have hknown : countersUnit.types.unknownReference? = none := by decide
  have hnesting : countersUnit.toJson.nesting ≤ nestingBudget := by decide
  have hnameless : namelessUnit.toJson? = none := rfl
  exact ⟨hjson, hnesting, hkept, hknown,
    (CompilationUnit.ofText_toText countersUnit).1 _ hjson hnesting hkept hknown, hnameless,
    ((CompilationUnit.ofText_toText namelessUnit).2 hnameless).2.2⟩

end TypedRoutes
