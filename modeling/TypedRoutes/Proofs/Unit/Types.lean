import TypedRoutes.Proofs.Json.Printing
import TypedRoutes.Unit.Encode
import TypedRoutes.Unit.Read

/-!
# Types that are read back

The document of a type is read as the type. A type spends one level of the budget for its own
record, one for its kind and one for a list, so the nesting of its JSON form is budget enough, and
as many steps are enough.
-/

namespace TypedRoutes

open Json

/-- A number that is kept is read back from its document. -/
theorem Json.Draft.float_draft {x : Float} (h : Kept x) :
    Draft.float (Json.number x).draft = .ok x := by
  obtain ⟨hfinite, htake⟩ := kept_iff.mp h
  rw [draft, if_pos hfinite, Draft.float, htake]
  rfl

/-- A list is read by reading its items, with one level of the budget spent. -/
theorem Json.Draft.list_of_mapM {α : Type} {read : Nat → Reading α} {budget : Nat}
    {items : List Draft} {values : List α} (h : items.mapM (read budget) = .ok values) :
    Draft.list (budget + 1) read (.array items none) = .ok values := by
  rw [Draft.list, h]
  rfl

/-- A kind that is made of something is read by its name and by what it is made of. -/
theorem TyKind.readWith_content {type : Nat → Reading Ty} {budget : Nat} {name : String}
    {value : Draft} {kind : TyKind} (hname : kindNames.contains name = true)
    (hcontent : TyKind.contentWith type budget name value = .ok kind) :
    TyKind.readWith type (budget + 1)
      (.object [(some "type", .string (some name)), (some "value", value)] none) = .ok kind := by
  rw [TyKind.readWith]
  have hchoice : Draft.choice budget kindNames (.string (some name)) = .ok name := by
    rw [Draft.choice, if_pos hname]
  simp only [List.foldlM_cons, List.foldlM_nil, KindFields.member, hchoice, bind, Except.bind, pure,
    Except.pure, hcontent]
  rfl

/-- A property is read back if its type is. -/
theorem TyProperty.readWith_draft {read : Nat → Reading Ty} {budget : Nat} {name : String}
    {type : Ty} {optional : Bool} {description : Option String}
    (h : read budget type.toJson.draft = .ok type) :
    TyProperty.readWith read (budget + 1)
      (TyProperty.mk name type optional description).toJson.draft =
        .ok (.mk name type optional description) := by
  cases description <;>
    simp [TyProperty.toJson, memberIfPresent, draft, memberDrafts, TyProperty.readWith,
      Draft.record, Draft.recordMember, h, Draft.closed, Draft.required, bind, Except.bind,
      pure, Except.pure, Draft.optional, Draft.text, Draft.truth, Functor.map, Except.map]

mutual

theorem Ty.readWithin_draft : ∀ {steps budget : Nat} {type : Ty}, type.toJson.Exact →
    type.toJson.nesting ≤ budget → budget ≤ steps →
      Ty.readWithin steps budget type.toJson.draft = .ok type
  | steps, budget, .mk kind aliasName, hexact, hnesting, hsteps => by
    rw [Ty.toJson, nesting, nestingOfMembers] at hnesting
    rw [Ty.toJson] at hexact
    obtain ⟨budget, rfl⟩ : ∃ inner, budget = inner + 1 := ⟨budget - 1, by omega⟩
    obtain ⟨steps, rfl⟩ : ∃ fewer, steps = fewer + 1 := ⟨steps - 1, by omega⟩
    have hkind : TyKind.readWith (Ty.readWithin steps) budget kind.toJson.draft = .ok kind :=
      TyKind.readWith_draft hexact.1 (by omega) (by omega)
    cases aliasName with
    | none =>
      simp [Ty.toJson, memberIfPresent, draft, memberDrafts, Ty.readWithin, Draft.record,
        Draft.recordMember, hkind, Draft.closed, Draft.required, bind, Except.bind, pure,
        Except.pure]
    | some aliasName =>
      simp [Ty.toJson, memberIfPresent, draft, memberDrafts, Ty.readWithin, Draft.record,
        Draft.recordMember, hkind, Draft.closed, Draft.required, bind, Except.bind, pure,
        Except.pure,
        Draft.optional, Draft.text, Functor.map, Except.map]

theorem TyKind.readWith_draft : ∀ {steps budget : Nat} {kind : TyKind}, kind.toJson.Exact →
    kind.toJson.nesting ≤ budget → budget ≤ steps + 1 →
      TyKind.readWith (Ty.readWithin steps) budget kind.toJson.draft = .ok kind
  | steps, 0, kind, _, hnesting, _ => by cases kind <;> simp [TyKind.toJson, nesting] at hnesting
  | steps, budget + 1, .string, _, _, _ | steps, budget + 1, .number, _, _, _
  | steps, budget + 1, .boolean, _, _, _ | steps, budget + 1, .bigInt, _, _, _
  | steps, budget + 1, .null, _, _, _ | steps, budget + 1, .undefined, _, _, _
  | steps, budget + 1, .void, _, _, _ | steps, budget + 1, .any, _, _, _
  | steps, budget + 1, .unknown, _, _, _ | steps, budget + 1, .never, _, _, _
  | steps, budget + 1, .date, _, _, _ | steps, budget + 1, .function, _, _, _ => rfl
  | steps, budget + 1, .literalString value, _, _, _
  | steps, budget + 1, .literalBoolean value, _, _, _
  | steps, budget + 1, .reference value, _, _, _ | steps, budget + 1, .internal value, _, _, _ =>
    TyKind.readWith_content (by decide) rfl
  | steps, budget + 1, .literalNumber value, hexact, _, _ => by
    refine TyKind.readWith_content (by decide) ?_
    rw [TyKind.contentWith, Draft.float_draft hexact.2.1]
    rfl
  | steps, budget + 1, .array inner, hexact, hnesting, hsteps
  | steps, budget + 1, .record inner, hexact, hnesting, hsteps
  | steps, budget + 1, .promise inner, hexact, hnesting, hsteps => by
    refine TyKind.readWith_content (by decide) ?_
    have hinner : inner.toJson.nesting ≤ budget := by
      simp only [TyKind.toJson, nesting, nestingOfMembers] at hnesting
      omega
    rw [TyKind.contentWith, Ty.readWithin_draft hexact.2.1 hinner (by omega)]
    rfl
  | steps, budget + 1, .tuple types, hexact, hnesting, hsteps
  | steps, budget + 1, .union types, hexact, hnesting, hsteps
  | steps, budget + 1, .intersection types, hexact, hnesting, hsteps => by
    refine TyKind.readWith_content (by decide) ?_
    simp only [TyKind.toJson, nesting, nestingOfMembers] at hnesting
    obtain ⟨budget, rfl⟩ : ∃ inner, budget = inner + 1 := ⟨budget - 1, by omega⟩
    rw [TyKind.contentWith, draft, Draft.list_of_mapM
      (Ty.readWithin_drafts hexact.2.1 (by omega) (by omega))]
    rfl
  | steps, budget + 1, .object properties, hexact, hnesting, hsteps => by
    refine TyKind.readWith_content (by decide) ?_
    simp only [TyKind.toJson, nesting, nestingOfMembers] at hnesting
    obtain ⟨budget, rfl⟩ : ∃ inner, budget = inner + 2 := ⟨budget - 2, by omega⟩
    have hproperties := Draft.list_of_mapM
      (TyProperty.readWith_drafts hexact.2.1.1 (by omega) (by omega : budget ≤ steps))
    simp [TyKind.contentWith, draft, memberDrafts, TyProperty.readAllWith, Draft.record,
      Draft.recordMember, hproperties, Draft.closed, bind, Except.bind, pure, Except.pure]

theorem Ty.readWithin_drafts : ∀ {steps budget : Nat} {types : List Ty},
    ExactItems (Ty.toJsons types) → nestingOfItems (Ty.toJsons types) ≤ budget → budget ≤ steps →
      (itemDrafts (Ty.toJsons types)).mapM (Ty.readWithin steps budget) = .ok types
  | _, _, [], _, _, _ => rfl
  | steps, budget, type :: rest, hexact, hnesting, hsteps => by
    rw [Ty.toJsons, nestingOfItems, Nat.max_le] at hnesting
    rw [Ty.toJsons, itemDrafts, List.mapM_cons,
      Ty.readWithin_draft hexact.1 hnesting.1 hsteps,
      Ty.readWithin_drafts hexact.2 hnesting.2 hsteps]
    rfl

theorem TyProperty.readWith_drafts : ∀ {steps budget : Nat} {properties : List TyProperty},
    ExactItems (TyProperty.toJsons properties) →
      nestingOfItems (TyProperty.toJsons properties) ≤ budget → budget ≤ steps →
        (itemDrafts (TyProperty.toJsons properties)).mapM
          (TyProperty.readWith (Ty.readWithin steps) budget) = .ok properties
  | _, _, [], _, _, _ => rfl
  | steps, budget, .mk name type optional description :: rest, hexact, hnesting, hsteps => by
    rw [TyProperty.toJsons, nestingOfItems, Nat.max_le] at hnesting
    have hproperty : TyProperty.readWith (Ty.readWithin steps) budget
        (TyProperty.mk name type optional description).toJson.draft =
          .ok (.mk name type optional description) := by
      have hnested := hnesting.1
      simp only [TyProperty.toJson, nesting, nestingOfMembers, List.cons_append] at hnested
      obtain ⟨budget, rfl⟩ : ∃ inner, budget = inner + 1 := ⟨budget - 1, by omega⟩
      exact TyProperty.readWith_draft (Ty.readWithin_draft hexact.1.2.1 (by omega) (by omega))
    rw [TyProperty.toJsons, itemDrafts, List.mapM_cons, hproperty,
      TyProperty.readWith_drafts hexact.2 hnesting.2 hsteps]
    rfl

end

/-- The document of a type is read as the type. -/
theorem Ty.read_draft {budget : Nat} {type : Ty} (hexact : type.toJson.Exact)
    (hnesting : type.toJson.nesting ≤ budget) : Ty.read budget type.toJson.draft = .ok type :=
  Ty.readWithin_draft hexact hnesting (Nat.le_refl budget)

end TypedRoutes
