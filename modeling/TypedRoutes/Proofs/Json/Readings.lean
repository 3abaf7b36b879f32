import TypedRoutes.Json.Shape

/-!
# What readings give

A property of what is read is put together from the properties of what is read from the parts of a
document: a reading may fail, but if it ends with a value then the value has the property.
-/

namespace TypedRoutes.Json

variable {α β σ : Type} {holds : α → Prop} {given : β → Prop}

/-- If a reading ends with a value then the value has the property. -/
def Ensures (holds : α → Prop) (result : Except Fault α) : Prop :=
  ∀ value, result = .ok value → holds value

namespace Ensures

/-- A reading that fails ensures everything. -/
theorem error {fault : Fault} : Ensures holds (.error fault) := fun _ hvalue => by cases hvalue

theorem ok {value : α} (h : holds value) : Ensures holds (.ok value) := by
  rintro _ ⟨⟩
  exact h

theorem trivial {result : Except Fault α} : Ensures (fun _ => True) result :=
  fun _ _ => True.intro

/-- What a reading ensures is given to the next one. -/
theorem bind {result : Except Fault β} {next : β → Except Fault α} (h : Ensures given result)
    (hn : ∀ value, given value → Ensures holds (next value)) : Ensures holds (result >>= next) := by
  intro value hvalue
  cases result with
  | error fault => cases hvalue
  | ok middle => exact hn middle (h middle rfl) value hvalue

/-- A field that has to be there has the property if it has it whenever it is there. -/
theorem required {found : Option α} (h : ∀ value ∈ found, holds value) :
    Ensures holds (Draft.required found) := by
  cases found with
  | none => exact error
  | some value => exact ok (h value rfl)

/-- What holds at the start and is kept by every step holds at the end. -/
theorem foldlM {items : List β} {step : α → β → Except Fault α} {start : α} (hstart : holds start)
    (h : ∀ item ∈ items, ∀ value, holds value → Ensures holds (step value item)) :
    Ensures holds (items.foldlM step start) := by
  induction items generalizing start with
  | nil => exact ok hstart
  | cons item rest ih =>
    obtain ⟨hitem, hrest⟩ := List.forall_mem_cons.mp h
    rw [List.foldlM_cons]
    exact bind (hitem start hstart) fun value hvalue => ih hvalue hrest

/-- What holds of a record before any field is read, and is kept by every field, holds of the whole
record. -/
theorem record (holds : σ → Prop) {budget : Nat} {names : List String}
    {read : Nat → Draft.FieldReader σ} {start : σ} {document : Draft} (hstart : holds start)
    (h : ∀ budget field (value : Draft) fields, holds fields →
      Ensures holds (read budget field value fields)) :
    Ensures holds (document.record budget names read start) := by
  cases document with
  | object members ending =>
    cases budget with
    | zero => exact error
    | succ budget =>
      have hfold : Ensures (fun state => holds state.2)
          (members.foldlM (Draft.recordMember names (read budget)) ([], start)) := by
        refine foldlM hstart ?_
        rintro ⟨key?, value⟩ - ⟨met, fields⟩ hfields
        cases key? with
        | none => exact error
        | some key =>
          rw [Draft.recordMember]
          split
          · split
            · exact error
            · exact bind (h budget key value fields hfields) fun fields hfields => ok hfields
          · exact trivial.bind fun _ _ => ok hfields
      exact bind hfold fun state hstate => trivial.bind fun _ _ => ok hstate
  | array items ending =>
    cases budget with
    | zero => exact error
    | succ budget =>
      have hread : ∀ (names : List String) (items : List Draft) (fields : σ), holds fields →
          Ensures holds (Draft.recordItems (read budget) names items fields) := by
        intro names items
        induction items generalizing names with
        | nil => exact fun fields hfields => by cases names <;> exact ok hfields
        | cons item rest ih =>
          intro fields hfields
          cases names with
          | nil => exact error
          | cons name names =>
            exact bind (h budget name item fields hfields) fun fields hfields =>
              ih names fields hfields
      exact bind (hread names items start hstart) fun state hstate =>
        trivial.bind fun _ _ => ok hstate
  | _ => exact error

/-- What is read for a value that may be missing has the property if it is there. -/
theorem optional {read : Reading α} (h : ∀ document, Ensures holds (read document))
    (document : Draft) :
    Ensures (fun value? => ∀ value ∈ value?, holds value) (document.optional read) := by
  cases document with
  | null => exact ok fun _ hvalue => by cases hvalue
  | _ =>
    refine bind (h _) fun value hvalue => ok ?_
    rintro _ ⟨⟩
    exact hvalue

/-- All entries of a map have the property. -/
theorem keyMap {read : Nat → Reading α}
    (h : ∀ budget document, Ensures holds (read budget document))
    (budget : Nat) (document : Draft) :
    Ensures (fun map : KeyMap α => ∀ entry ∈ map.entries, holds entry.2)
      (document.keyMap budget read) := by
  cases document with
  | object members ending =>
    cases budget with
    | zero => exact error
    | succ budget =>
      refine bind (foldlM (fun _ hmem => by cases hmem) ?_) fun map hmap =>
        trivial.bind fun _ _ => ok hmap
      rintro ⟨key?, value⟩ - map hmap
      cases key? with
      | none => exact error
      | some key =>
        refine bind (h budget value) fun value hvalue => ok ?_
        intro entry hentry
        rcases KeyMap.mem_insertEntry hentry with rfl | hentry
        · exact hvalue
        · exact hmap entry hentry
  | _ => exact error

end Ensures

end TypedRoutes.Json
