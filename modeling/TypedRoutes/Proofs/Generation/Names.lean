import TypedRoutes.Artifact.Scope
import TypedRoutes.Proofs.Runtime.Data

/-!
# Names in generated code

Generated code binds few names of its own: what closures take, numbered by their nesting. Different
helpers have different names, bound names of different nesting differ, and no bound name hides a
helper or a name that every program finds in place.
-/

namespace TypedRoutes

/-- Numerals of different numbers differ. -/
theorem Decimal.naturalText_inj {a b : Nat} : naturalText a = naturalText b ↔ a = b := by
  constructor
  · intro h
    have hdigits : Nat.toDigits 10 a = Nat.toDigits 10 b := String.ofList_inj.mp h
    rw [← Nat.ofDigitChars_ten_toDigits (n := a), hdigits, Nat.ofDigitChars_ten_toDigits]
  · rintro rfl
    rfl

/-- A natural number is written by its digits. -/
theorem Decimal.toList_naturalText (n : Nat) : (naturalText n).toList = Nat.toDigits 10 n := by
  rw [naturalText, String.toList_ofList]

/-- Kind and number can be read off the name of a helper. -/
theorem HelperKind.helperName_inj {kind other : HelperKind} {i j : Nat} :
    kind.helperName i = other.helperName j ↔ kind = other ∧ i = j := by
  constructor
  · intro h
    have hlist := congrArg String.toList h
    simp only [helperName, String.toList_append] at hlist
    have hlength : kind.stem.toList.length = other.stem.toList.length := by
      cases kind <;> cases other <;> simp [stem]
    obtain ⟨hstem, hnumber⟩ := List.append_inj hlist hlength
    refine ⟨?_, Decimal.naturalText_inj.mp (String.toList_inj.mp hnumber)⟩
    cases kind <;> cases other <;> simp_all [stem]
  · rintro ⟨rfl, rfl⟩
    rfl

/-- The names of closure parameters that are numbered by their nesting. -/
def binders : List String := ["elem", "index", "key", "value"]

/-- The names that closures bind without number. -/
def parameters : List String := ["input", "path", "flag", "str"]

/-- The name is bound by a closure that is nested at least as deep as given. -/
def BoundFrom (depth : Nat) (name : String) : Prop :=
  ∃ deeper base, depth ≤ deeper ∧ base ∈ binders ∧ name = bindingName deeper base

/-- The name is bound by some closure of generated code. -/
def Local (name : String) : Prop := name ∈ parameters ∨ BoundFrom 0 name

/-- What is bound from a deeper level on is bound from any level above it. -/
theorem BoundFrom.mono {shallow deep : Nat} {name : String} (h : BoundFrom deep name)
    (hle : shallow ≤ deep) : BoundFrom shallow name := by
  obtain ⟨deeper, base, hdeep, hbase, rfl⟩ := h
  exact ⟨deeper, base, Nat.le_trans hle hdeep, hbase, rfl⟩

/-- What is bound from a level on is a local name. -/
theorem BoundFrom.toLocal {depth : Nat} {name : String} (h : BoundFrom depth name) : Local name :=
  .inr (h.mono (Nat.zero_le depth))

/-- A binder is its word with its depth behind it, unless that is zero. -/
theorem toList_bindingName (depth : Nat) (base : String) :
    (bindingName depth base).toList =
      base.toList ++ if depth = 0 then [] else Nat.toDigits 10 depth := by
  rw [bindingName]
  split
  · simp
  · rw [String.toList_append, Decimal.toList_naturalText]

/-- Parameters of the same name are told apart by their nesting. -/
theorem bindingName_inj {depth other : Nat} {base : String} :
    bindingName depth base = bindingName other base ↔ depth = other := by
  constructor
  · intro h
    have hlist := congrArg String.toList h
    rw [toList_bindingName, toList_bindingName] at hlist
    have hsuffix := List.append_cancel_left hlist
    by_cases hd : depth = 0 <;> by_cases ho : other = 0
    · rw [hd, ho]
    · simp only [hd, ho, if_true, if_false] at hsuffix
      exact absurd hsuffix.symm Nat.toDigits_ne_nil
    · simp only [hd, ho, if_true, if_false] at hsuffix
      exact absurd hsuffix Nat.toDigits_ne_nil
    · simp only [hd, ho, if_false] at hsuffix
      rw [← Nat.ofDigitChars_ten_toDigits (n := depth), hsuffix, Nat.ofDigitChars_ten_toDigits]
  · rintro rfl
    rfl

/-- The first letter of a numbered name tells its base. -/
theorem base_eq_of_bindingName_eq {depth other : Nat} {base base' : String} (hb : base ∈ binders)
    (hb' : base' ∈ binders) (h : bindingName depth base = bindingName other base') :
    base = base' := by
  have hlist := congrArg String.toList h
  rw [toList_bindingName, toList_bindingName] at hlist
  simp only [binders, List.mem_cons, List.not_mem_nil, or_false] at hb hb'
  rcases hb with rfl | rfl | rfl | rfl <;> rcases hb' with rfl | rfl | rfl | rfl <;>
    first
    | rfl
    | exact absurd (congrArg List.head? hlist) (by simp)

/-- A parameter is not bound again further inside. -/
theorem not_boundFrom_succ {depth : Nat} {base : String} (hb : base ∈ binders) :
    ¬ BoundFrom (depth + 1) (bindingName depth base) := by
  rintro ⟨deeper, other, hdeep, hother, h⟩
  obtain rfl := base_eq_of_bindingName_eq hb hother h
  rw [bindingName_inj] at h
  omega

/-- A parameter without number is not bound under a numbered name. -/
theorem not_boundFrom_parameter {depth : Nat} {name : String} (h : name ∈ parameters) :
    ¬ BoundFrom depth name := by
  rintro ⟨deeper, base, -, hbase, rfl⟩
  generalize hname : bindingName deeper base = name at h
  have hlist := congrArg String.toList hname
  rw [toList_bindingName] at hlist
  simp only [binders, List.mem_cons, List.not_mem_nil, or_false] at hbase
  simp only [parameters, List.mem_cons, List.not_mem_nil, or_false] at h
  rcases hbase with rfl | rfl | rfl | rfl <;> rcases h with rfl | rfl | rfl | rfl <;>
    simp at hlist

/-- Two parameters of one closure differ. -/
theorem bindingName_ne {depth other : Nat} {base base' : String} (hb : base ∈ binders)
    (hb' : base' ∈ binders) (hne : base ≠ base') :
    bindingName depth base ≠ bindingName other base' :=
  fun h => hne (base_eq_of_bindingName_eq hb hb' h)

/-- The first letters of bound names. -/
theorem Local.head_mem {name : String} (h : Local name) :
    ∀ letter, name.toList.head? = some letter → letter ∈ ['i', 'p', 'f', 's', 'e', 'k', 'v'] := by
  rcases h with hparam | ⟨depth, base, -, hbase, rfl⟩
  · simp only [parameters, List.mem_cons, List.not_mem_nil, or_false] at hparam
    rcases hparam with rfl | rfl | rfl | rfl <;> simp
  · rw [toList_bindingName]
    simp only [binders, List.mem_cons, List.not_mem_nil, or_false] at hbase
    rcases hbase with rfl | rfl | rfl | rfl <;> simp

/-- The name of a helper starts with a dollar sign. -/
theorem HelperKind.head?_helperName (kind : HelperKind) (index : Nat) :
    (kind.helperName index).toList.head? = some '$' := by
  rw [helperName, String.toList_append]
  cases kind <;> simp [stem]

/-- No bound name hides a helper. -/
theorem HelperKind.not_local_helperName (kind : HelperKind) (index : Nat) :
    ¬ Local (kind.helperName index) := by
  intro h
  have hhead := h.head_mem '$' (kind.head?_helperName index)
  simp at hhead

/-- No helper hides a name that every program finds in place. -/
theorem HelperKind.standard?_helperName (kind : HelperKind) (index : Nat) :
    Runtime.standard? (kind.helperName index) = none := by
  have hhead := kind.head?_helperName index
  unfold Runtime.standard?
  generalize kind.helperName index = name at hhead
  split <;> simp at hhead ⊢

/-- No bound name hides a name that every program finds in place. -/
theorem not_local_of_standard {name : String} {value : Runtime.Data}
    (hstandard : Runtime.standard? name = some value) : ¬ Local name := by
  intro h
  have hhead := h.head_mem
  unfold Runtime.standard? at hstandard
  split at hstandard <;> simp at hhead hstandard

end TypedRoutes
