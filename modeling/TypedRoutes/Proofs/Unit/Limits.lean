import TypedRoutes.Proofs.Unit.RoundTrip

/-!
# Units that nest too deep

A reader enters as many levels of arrays and objects as its budget has, and no more: a document that
nests deeper is refused, wherever the deepest part stands and whatever else the document holds. For
each shape of a document this comes from the same fact about its parts, since a reading that has
several steps is refused as soon as one of them is.
-/

namespace TypedRoutes

open Json

namespace Json

variable {α β σ : Type}

/-! ## Readings that are refused -/

/-- Whether a reading fails, for whatever reason. -/
def Refused (result : Except Fault α) : Prop := ∃ fault, result = .error fault

/-- Nothing is read behind a refused reading. -/
theorem Refused.bind {result : Except Fault α} (h : Refused result) (next : α → Except Fault β) :
    Refused (result >>= next) := by
  obtain ⟨fault, rfl⟩ := h
  exact ⟨fault, rfl⟩

/-- A reading is refused if whatever comes next is. -/
theorem Refused.behind {result : Except Fault α} {next : α → Except Fault β}
    (h : ∀ value, Refused (next value)) : Refused (result >>= next) := by
  cases result with
  | error fault => exact ⟨fault, rfl⟩
  | ok value => exact h value

/-- A list is refused with any of its items. -/
theorem Refused.mapM {items : List β} {read : β → Except Fault α} {item : β} (hmem : item ∈ items)
    (h : Refused (read item)) : Refused (items.mapM read) := by
  induction items with
  | nil => cases hmem
  | cons first rest ih =>
    rw [List.mapM_cons]
    rcases List.mem_cons.mp hmem with rfl | hrest
    · exact h.bind _
    · exact .behind fun _ => (ih hrest).bind _

/-- A sequence of steps is refused with any step that is refused after whatever came before. -/
theorem Refused.foldlM {items : List β} {step : σ → β → Except Fault σ} {item : β}
    (hmem : item ∈ items) (h : ∀ state, Refused (step state item)) (start : σ) :
    Refused (items.foldlM step start) := by
  induction items generalizing start with
  | nil => cases hmem
  | cons first rest ih =>
    rw [List.foldlM_cons]
    rcases List.mem_cons.mp hmem with rfl | hrest
    · exact (h start).bind _
    · exact .behind fun state => ih hrest state

/-! ## Documents that nest too deep -/

/-- Some item of a list nests as deep as the list. -/
theorem exists_of_lt_nestingOfItems {items : List Json} {budget : Nat}
    (h : budget < nestingOfItems items) : ∃ item ∈ items, budget < item.nesting := by
  by_contra hnone
  exact absurd (nestingOfItems_le.mpr fun item hmem =>
    not_lt.mp fun hlt => hnone ⟨item, hmem, hlt⟩) (not_le.mpr h)

/-- Some member of an object nests as deep as its members together. -/
theorem exists_of_lt_nestingOfMembers {members : List (String × Json)} {budget : Nat}
    (h : budget < nestingOfMembers members) : ∃ member ∈ members, budget < member.2.nesting := by
  by_contra hnone
  exact absurd (nestingOfMembers_le.mpr fun member hmem =>
    not_lt.mp fun hlt => hnone ⟨member, hmem, hlt⟩) (not_le.mpr h)

/-- The documents of a list are those of its items. -/
theorem mem_itemDrafts {items : List Json} {item : Json} (h : item ∈ items) :
    item.draft ∈ itemDrafts items := by
  induction items with
  | nil => cases h
  | cons first rest ih =>
    rw [itemDrafts]
    rcases List.mem_cons.mp h with rfl | hrest
    · exact .head _
    · exact .tail _ (ih hrest)

/-- The documents of members are those of their values. -/
theorem mem_memberDrafts {members : List (String × Json)} {member : String × Json}
    (h : member ∈ members) : (some member.1, member.2.draft) ∈ memberDrafts members := by
  induction members with
  | nil => cases h
  | cons first rest ih =>
    obtain ⟨key, value⟩ := first
    rw [memberDrafts]
    rcases List.mem_cons.mp h with rfl | hrest
    · exact .head _
    · exact .tail _ (ih hrest)

/-- A reader refuses the document of a value within every budget that the value nests deeper
than. -/
def Bounds (read : Nat → Reading α) (json : Json) : Prop :=
  ∀ budget, budget < json.nesting → Refused (read budget json.draft)

mutual

/-- The document of a value that nests deeper than the budget is not taken. -/
theorem bounds_toJson : ∀ json : Json, Bounds Draft.toJson json
  | .array items => fun budget hn => by
    rw [nesting] at hn
    cases budget with
    | zero => exact ⟨_, rfl⟩
    | succ budget => exact (refused_itemsToJson items (Nat.lt_of_succ_lt_succ hn)).bind _
  | .object members => fun budget hn => by
    rw [nesting] at hn
    cases budget with
    | zero => exact ⟨_, rfl⟩
    | succ budget => exact (refused_membersToJson members (Nat.lt_of_succ_lt_succ hn)).bind _
  | .null | .boolean _ | .natural _ | .number _ | .string _ => fun _ hn =>
    absurd hn (Nat.not_lt_zero _)

/-- Items are refused with the first that nests too deep. -/
theorem refused_itemsToJson {budget : Nat} : ∀ items : List Json, budget < nestingOfItems items →
    Refused (Draft.itemsToJson budget (itemDrafts items))
  | [], hn => absurd hn (Nat.not_lt_zero _)
  | item :: rest, hn => by
    rw [nestingOfItems] at hn
    rw [itemDrafts, Draft.itemsToJson]
    by_cases hitem : budget < item.nesting
    · exact (bounds_toJson item budget hitem).bind _
    · exact .behind fun _ => (refused_itemsToJson rest (by omega)).bind _

/-- Members are refused with the first that nests too deep. -/
theorem refused_membersToJson {budget : Nat} : ∀ members : List (String × Json),
    budget < nestingOfMembers members →
      Refused (Draft.membersToJson budget (memberDrafts members))
  | [], hn => absurd hn (Nat.not_lt_zero _)
  | (key, value) :: rest, hn => by
    rw [nestingOfMembers] at hn
    rw [memberDrafts, Draft.membersToJson]
    by_cases hvalue : budget < value.nesting
    · exact (bounds_toJson value budget hvalue).bind _
    · exact .behind fun _ => (refused_membersToJson rest (by omega)).bind _

end

namespace Bounds

variable {read : Nat → Reading α}

/-- What does not nest is not too deep for anyone. -/
theorem flat {json : Json} (h : json.nesting = 0) : Bounds read json := fun budget hn => by omega

/-- A list nests one level deeper than its items. -/
theorem list {items : List Json} (h : ∀ item ∈ items, Bounds read item) :
    Bounds (fun budget => Draft.list budget read) (.array items) := by
  intro budget hn
  rw [nesting] at hn
  cases budget with
  | zero => exact ⟨_, rfl⟩
  | succ budget =>
    obtain ⟨item, hmem, hitem⟩ := exists_of_lt_nestingOfItems (Nat.lt_of_succ_lt_succ hn)
    exact (Refused.mapM (mem_itemDrafts hmem) (h item hmem budget hitem)).bind _

/-- A map nests one level deeper than its values. -/
theorem keyMap {members : List (String × Json)} (h : ∀ member ∈ members, Bounds read member.2) :
    Bounds (fun budget => Draft.keyMap budget read) (.object members) := by
  intro budget hn
  rw [nesting] at hn
  cases budget with
  | zero => exact ⟨_, rfl⟩
  | succ budget =>
    obtain ⟨member, hmem, hmember⟩ := exists_of_lt_nestingOfMembers (Nat.lt_of_succ_lt_succ hn)
    exact (Refused.foldlM (mem_memberDrafts hmem)
      (fun map => (h member hmem budget hmember).bind _) _).bind _

/-- A record nests one level deeper than its fields. -/
theorem record {fields : List String} {read : Nat → Draft.FieldReader σ} {start : σ}
    {members : List (String × Json)}
    (h : ∀ member ∈ members, fields.contains member.1 = true ∧
      ∀ state, Bounds (fun budget draft => read budget member.1 draft state) member.2) :
    Bounds (fun budget => Draft.record budget fields read start) (.object members) := by
  intro budget hn
  rw [nesting] at hn
  cases budget with
  | zero => exact ⟨_, rfl⟩
  | succ budget =>
    obtain ⟨member, hmem, hmember⟩ := exists_of_lt_nestingOfMembers (Nat.lt_of_succ_lt_succ hn)
    obtain ⟨hfield, hread⟩ := h member hmem
    refine (Refused.foldlM (mem_memberDrafts hmem) (fun state => ?_) _).bind _
    rw [Draft.recordMember, if_pos hfield]
    split
    · exact ⟨_, rfl⟩
    · exact (hread state.2 budget hmember).bind _

/-- A value that may be missing nests as deep as it does where it has to be there. -/
theorem optional {json : Json} (h : Bounds read json) :
    Bounds (fun budget draft => draft.optional (read budget)) json := by
  intro budget hn
  have hread := h budget hn
  cases json with
  | array items | object members => exact hread.bind _
  | _ => exact absurd hn (Nat.not_lt_zero _)

end Bounds

end Json

/-! ## Expressions and types -/

/-- A tagged record is taken as a whole before any of its fields is looked at. -/
theorem bounds_readTagged {α : Type} {names : List String} {ofJson? : Nat → Json → Option α}
    (json : Json) : Bounds (readTagged names ofJson?) json := fun budget hn =>
  .behind fun _ => (bounds_toJson json budget hn).bind _

theorem Expr.bounds_read (expr : Expr) : Bounds Expr.read expr.toJson := bounds_readTagged _

/-- A kind that is made of something is refused with it. -/
theorem TyKind.refused_content {type : Nat → Reading Ty} {budget : Nat} {name : String}
    {value : Draft} (hname : kindNames.contains name = true)
    (hcontent : Refused (TyKind.contentWith type budget name value)) :
    Refused (TyKind.readWith type (budget + 1)
      (.object [(some "type", .string (some name)), (some "value", value)] none)) := by
  have hchoice : Draft.choice budget kindNames (.string (some name)) = .ok name := by
    rw [Draft.choice, if_pos hname]
  obtain ⟨fault, hfault⟩ := hcontent
  refine ⟨fault, ?_⟩
  rw [TyKind.readWith]
  simp only [List.foldlM_cons, KindFields.member, hchoice, bind, Except.bind, pure, Except.pure,
    hfault]

mutual

/-- A type is refused with its kind. -/
theorem Ty.bounds_readWithin : ∀ (type : Ty) (steps : Nat), Bounds (Ty.readWithin steps) type.toJson
  | .mk kind aliasName, 0 => fun budget _ => ⟨_, rfl⟩
  | .mk kind aliasName, steps + 1 => by
    intro budget hn
    rw [Ty.toJson] at hn ⊢
    refine (Bounds.record (fun member hmember => ?_) budget hn).bind _
    rcases List.mem_cons.mp hmember with rfl | hmember
    · exact ⟨rfl, fun state budget hn => (kind.bounds_readWith steps budget hn).bind _⟩
    · cases aliasName with
      | none => cases hmember
      | some aliasName =>
        obtain rfl := List.mem_singleton.mp hmember
        exact ⟨rfl, fun _ => .flat rfl⟩

/-- A kind is refused with what it is made of. -/
theorem TyKind.bounds_readWith : ∀ (kind : TyKind) (steps : Nat),
    Bounds (TyKind.readWith (Ty.readWithin steps)) kind.toJson
  | kind, steps => by
    intro budget hn
    cases budget with
    | zero => cases kind <;> exact ⟨_, rfl⟩
    | succ budget =>
      cases kind with
      | array inner | record inner | promise inner =>
        simp only [TyKind.toJson, nesting, nestingOfMembers] at hn
        exact TyKind.refused_content (by decide)
          ((inner.bounds_readWithin steps budget (by omega)).bind _)
      | tuple types | union types | intersection types =>
        simp only [TyKind.toJson, nesting, nestingOfMembers] at hn
        have htypes : Bounds (fun budget => Draft.list budget (Ty.readWithin steps))
            (.array (Ty.toJsons types)) := .list (Ty.bounds_readAll types steps)
        refine TyKind.refused_content (by decide) ((htypes budget ?_).bind _)
        rw [nesting]
        omega
      | object properties =>
        simp only [TyKind.toJson, nesting, nestingOfMembers] at hn
        have hproperties : Bounds (TyProperty.readAllWith (Ty.readWithin steps))
            (.object [("properties", .array (TyProperty.toJsons properties))]) := by
          refine Bounds.record fun member hmember => ?_
          obtain rfl := List.mem_singleton.mp hmember
          exact ⟨rfl, fun _ => .list (TyProperty.bounds_readAll properties steps)⟩
        refine TyKind.refused_content (by decide) ((hproperties budget ?_).bind _)
        simp only [nesting, nestingOfMembers]
        omega
      | _ => simp [TyKind.toJson, nesting, nestingOfMembers] at hn

theorem Ty.bounds_readAll : ∀ (types : List Ty) (steps : Nat),
    ∀ json ∈ Ty.toJsons types, Bounds (Ty.readWithin steps) json
  | [], _, _, hmem => by cases hmem
  | type :: rest, steps, json, hmem => by
    rw [Ty.toJsons] at hmem
    rcases List.mem_cons.mp hmem with rfl | hrest
    · exact type.bounds_readWithin steps
    · exact Ty.bounds_readAll rest steps json hrest

/-- A property is refused with its type. -/
theorem TyProperty.bounds_readAll : ∀ (properties : List TyProperty) (steps : Nat),
    ∀ json ∈ TyProperty.toJsons properties, Bounds (TyProperty.readWith (Ty.readWithin steps)) json
  | [], _, _, hmem => by cases hmem
  | .mk name type optional description :: rest, steps, json, hmem => by
    rw [TyProperty.toJsons] at hmem
    rcases List.mem_cons.mp hmem with rfl | hrest
    · intro budget hn
      rw [TyProperty.toJson] at hn ⊢
      refine (Bounds.record (fun member hmember => ?_) budget hn).bind _
      simp only [List.cons_append, List.nil_append, List.mem_cons] at hmember
      rcases hmember with rfl | rfl | rfl | hmember
      · exact ⟨rfl, fun _ => .flat rfl⟩
      · exact ⟨rfl, fun _ budget hn => (type.bounds_readWithin steps budget hn).bind _⟩
      · exact ⟨rfl, fun _ => .flat rfl⟩
      · cases description with
        | none => cases hmember
        | some description =>
          obtain rfl := List.mem_singleton.mp hmember
          exact ⟨rfl, fun _ => .flat rfl⟩
    · exact TyProperty.bounds_readAll rest steps json hrest

end

theorem Ty.bounds_read (type : Ty) : Bounds Ty.read type.toJson := fun budget hn =>
  type.bounds_readWithin budget budget hn

/-! ## Units -/

theorem Decorator.bounds_read (decorator : Decorator) : Bounds Decorator.read decorator.toJson := by
  intro budget hn
  refine (Bounds.record (fun member hmember => ?_) budget hn).bind _
  obtain rfl := List.mem_singleton.mp hmember
  exact ⟨rfl, fun _ budget hn => (decorator.expression.bounds_read budget hn).bind _⟩

theorem MethodDeclaration.bounds_read (method : MethodDeclaration) :
    Bounds MethodDeclaration.read method.toJson := by
  obtain ⟨name, decorators, returnType?⟩ := method
  intro budget hn
  refine (Bounds.record (fun member hmember => ?_) budget hn).bind _
  simp only [List.cons_append, List.nil_append, List.mem_cons] at hmember
  rcases hmember with rfl | rfl | hmember
  · exact ⟨rfl, fun _ => .flat rfl⟩
  · have hdecorators : ∀ json ∈ decorators.map Decorator.toJson, Bounds Decorator.read json :=
      List.forall_mem_map.mpr fun decorator _ => decorator.bounds_read
    exact ⟨rfl, fun _ budget hn => (Bounds.list hdecorators budget hn).bind _⟩
  · cases returnType? with
    | none => cases hmember
    | some type =>
      obtain rfl := List.mem_singleton.mp hmember
      exact ⟨rfl, fun _ budget hn => (type.bounds_read.optional budget hn).bind _⟩

theorem ClassDeclaration.bounds_read (declaration : ClassDeclaration) :
    Bounds ClassDeclaration.read declaration.toJson := by
  intro budget hn
  refine (Bounds.record (fun member hmember => ?_) budget hn).bind _
  simp only [List.mem_cons, List.not_mem_nil, or_false] at hmember
  rcases hmember with rfl | rfl
  · exact ⟨rfl, fun _ => .flat rfl⟩
  · have hmethods : ∀ json ∈ declaration.methods.map MethodDeclaration.toJson,
        Bounds MethodDeclaration.read json :=
      List.forall_mem_map.mpr fun method _ => method.bounds_read
    exact ⟨rfl, fun _ budget hn => (Bounds.list hmethods budget hn).bind _⟩

theorem SourceFile.bounds_read (file : SourceFile) : Bounds SourceFile.read file.toJson := by
  intro budget hn
  refine (Bounds.record (fun member hmember => ?_) budget hn).bind _
  simp only [List.mem_cons, List.not_mem_nil, or_false] at hmember
  rcases hmember with rfl | rfl
  · exact ⟨rfl, fun _ => .flat rfl⟩
  · have hclasses : ∀ json ∈ file.classes.map ClassDeclaration.toJson,
        Bounds ClassDeclaration.read json :=
      List.forall_mem_map.mpr fun declaration _ => declaration.bounds_read
    exact ⟨rfl, fun _ budget hn => (Bounds.list hclasses budget hn).bind _⟩

theorem Declaration.bounds_read (declaration : Declaration) :
    Bounds Declaration.read declaration.toJson := by
  intro budget hn
  refine (Bounds.record (fun member hmember => ?_) budget hn).bind _
  simp only [List.mem_cons, List.not_mem_nil, or_false] at hmember
  rcases hmember with rfl | rfl
  · exact ⟨rfl, fun _ => .flat rfl⟩
  · exact ⟨rfl, fun _ => .flat rfl⟩

/-- A table of types nests one level deeper than its types. -/
theorem bounds_types (table : TypeTable) :
    Bounds (fun budget => Draft.keyMap budget Ty.read) (table.toJson Ty.toJson) :=
  .keyMap (List.forall_mem_map.mpr fun entry _ => entry.2.bounds_read)

/-- A snapshot is refused with any of its maps. -/
theorem Snapshot.bounds_read (snapshot : Snapshot) : Bounds Snapshot.read snapshot.toJson := by
  intro budget hn
  refine Bounds.record (fun member hmember => ?_) budget hn
  simp only [List.mem_cons, List.not_mem_nil, or_false] at hmember
  rcases hmember with rfl | rfl | rfl
  · have hsymbols : Bounds (fun budget => Draft.keyMap budget fun budget draft =>
        draft.optional (Declaration.read budget))
          (snapshot.symbols.toJson (orNull Declaration.toJson)) := by
      refine .keyMap (List.forall_mem_map.mpr fun entry _ => ?_)
      obtain ⟨key, declaration?⟩ := entry
      cases declaration? with
      | none => exact .flat rfl
      | some declaration => exact declaration.bounds_read.optional
    exact ⟨rfl, fun _ budget hn => (hsymbols budget hn).bind _⟩
  · exact ⟨rfl, fun _ budget hn => (bounds_types snapshot.values budget hn).bind _⟩
  · exact ⟨rfl, fun _ budget hn => (bounds_types snapshot.definitions budget hn).bind _⟩

/-- A unit is refused with its source file or with what was recorded about it. -/
theorem CompilationUnit.bounds_read (unit : CompilationUnit) :
    Bounds CompilationUnit.read unit.toJson := by
  intro budget hn
  refine (Bounds.record (fun member hmember => ?_) budget hn).bind _
  simp only [List.mem_cons, List.not_mem_nil, or_false] at hmember
  rcases hmember with rfl | rfl
  · exact ⟨rfl, fun _ budget hn => (unit.source.bounds_read budget hn).bind _⟩
  · exact ⟨rfl, fun _ budget hn => (unit.types.bounds_read budget hn).bind _⟩

/-! ## Stored units -/

namespace CompilationUnit

variable {unit : CompilationUnit}

/-- The text of a unit, with the end of a line behind it, is that of its JSON form. -/
theorem readDocument_line (hnamed : unit.Named) :
    readDocument CompilationUnit.read (unit.toText ++ "\n") =
      CompilationUnit.read nestingBudget unit.toJson.draft := by
  have hdraft : Draft.read (unit.toText ++ "\n") = (unit.toJson.draft, none) := by
    refine Reads.read ?_
    rw [hnamed.toText, String.toList_append]
    exact (reads_text 0 unit.toJson).before_blank (by simp [isBlank])
  rw [readDocument, hdraft]
  dsimp only
  generalize CompilationUnit.read nestingBudget unit.toJson.draft = result
  cases result <;> rfl

/-- A stored unit is read back if its numbers are kept and it does not nest too deep. -/
theorem ofText_line (hnamed : unit.Named) (hkept : Every Kept unit.numbers)
    (hknown : unit.types.unknownReference? = none)
    (hnesting : unit.toJson.nesting ≤ nestingBudget) :
    CompilationUnit.ofText (unit.toText ++ "\n") = .ok unit := by
  rw [ofText, readDocument_line hnamed, read_draft hnamed (exact_toJson hkept) hnesting]
  simp only [Except.mapError, bind, Except.bind, hknown]
  rfl

/-- A stored unit that nests too deep is refused, whatever its numbers are. -/
theorem ofText_line_deep (hnamed : unit.Named) (hnesting : nestingBudget < unit.toJson.nesting) :
    ∃ fault, CompilationUnit.ofText (unit.toText ++ "\n") = .error (.json fault) := by
  obtain ⟨fault, hfault⟩ := unit.bounds_read nestingBudget hnesting
  rw [ofText, readDocument_line hnamed, hfault]
  exact ⟨fault, rfl⟩

end CompilationUnit

end TypedRoutes
