import TypedRoutes.Json.Printer
import TypedRoutes.Proofs.Json.Containers
import TypedRoutes.Proofs.Json.Kept

/-!
# Texts of values

The text of a value is read as a document with the same structure, in which every number stands as
the numeral it was written as. A reader whose nesting budget is not exceeded takes that document as
the value itself, if the numbers are kept.
-/

namespace TypedRoutes.Json

/-! ## Values with an exact text -/

mutual

/-- Whether the numbers of a value are read back from its text: floats are kept, and natural numbers
are not too large. -/
def Exact : Json → Prop
  | .natural value => value < naturalBound
  | .number value => Kept value
  | .array items => ExactItems items
  | .object members => ExactMembers members
  | _ => True

/-- Whether the numbers of several values are read back. -/
def ExactItems : List Json → Prop
  | [] => True
  | item :: rest => item.Exact ∧ ExactItems rest

/-- Whether the numbers of the values of several members are read back. -/
def ExactMembers : List (String × Json) → Prop
  | [] => True
  | (_, value) :: rest => value.Exact ∧ ExactMembers rest

end

mutual

/-- How many arrays and objects stand inside one another. -/
def nesting : Json → Nat
  | .array items => nestingOfItems items + 1
  | .object members => nestingOfMembers members + 1
  | _ => 0

/-- The deepest nesting of several values. -/
def nestingOfItems : List Json → Nat
  | [] => 0
  | item :: rest => max item.nesting (nestingOfItems rest)

/-- The deepest nesting of the values of several members. -/
def nestingOfMembers : List (String × Json) → Nat
  | [] => 0
  | (_, value) :: rest => max value.nesting (nestingOfMembers rest)

end

mutual

/-- The document that the text of a value is read as. What is no finite number is written as
null. -/
def draft : Json → Draft
  | .null => .null
  | .boolean value => .boolean value
  | .natural value => .number ⟨false, value, 0, 0, true⟩
  | .number value => if value.isFinite then .number (floatNumeral value) else .null
  | .string value => .string (some value)
  | .array items => .array (itemDrafts items) none
  | .object members => .object (memberDrafts members) none

/-- The documents of several values. -/
def itemDrafts : List Json → List Draft
  | [] => []
  | item :: rest => item.draft :: itemDrafts rest

/-- The documents of several members. -/
def memberDrafts : List (String × Json) → List (Option String × Draft)
  | [] => []
  | (key, value) :: rest => (some key, value.draft) :: memberDrafts rest

end

theorem exactItems_iff {items : List Json} : ExactItems items ↔ ∀ item ∈ items, item.Exact := by
  induction items with
  | nil => simp [ExactItems]
  | cons item rest ih => simp [ExactItems, ih]

theorem exactMembers_iff {members : List (String × Json)} :
    ExactMembers members ↔ ∀ member ∈ members, member.2.Exact := by
  induction members with
  | nil => simp [ExactMembers]
  | cons member rest ih => simp [ExactMembers, ih]

theorem nestingOfItems_le {items : List Json} {budget : Nat} :
    nestingOfItems items ≤ budget ↔ ∀ item ∈ items, item.nesting ≤ budget := by
  induction items with
  | nil => simp [nestingOfItems]
  | cons item rest ih => simp [nestingOfItems, ih]

theorem nestingOfMembers_le {members : List (String × Json)} {budget : Nat} :
    nestingOfMembers members ≤ budget ↔ ∀ member ∈ members, member.2.nesting ≤ budget := by
  induction members with
  | nil => simp [nestingOfMembers]
  | cons member rest ih => simp [nestingOfMembers, ih]

/-! ## Reading the text -/

theorem isBlank_newLine (depth : Nat) : ∀ c ∈ (newLine depth).toList, isBlank c = true := by
  have hindent : ∀ c ∈ (String.join (List.replicate depth "  ")).toList, isBlank c = true := by
    induction depth with
    | zero => simp [String.join]
    | succ depth ih =>
      rw [List.replicate_succ, String.join_cons, String.toList_append]
      exact List.forall_mem_append.mpr ⟨by simp [isBlank], ih⟩
  rw [newLine, String.toList_append]
  exact List.forall_mem_append.mpr ⟨by simp [isBlank], hindent⟩

/-- Blank text in front of a document is passed over. -/
theorem Reads.behind_blank {blank cs : List Char} {document : Draft}
    (hblank : ∀ c ∈ blank, isBlank c = true) (h : Reads cs document) :
    Reads (blank ++ cs) document := by
  rw [Reads, tokens_blank hblank]
  exact h

/-- Blank text behind a document is passed over. -/
theorem Reads.before_blank {cs blank : List Char} {document : Draft} (h : Reads cs document)
    (hblank : ∀ c ∈ blank, isBlank c = true) : Reads (cs ++ blank) document := by
  have hends : EndsNumber (blank ++ []) := endsNumber_blank hblank nofun
  have hnone : tokens (blank ++ []) = [] := by rw [tokens_blank hblank, tokens]
  rw [List.append_nil] at hends hnone
  rw [Reads, h.tokens_append hends, hnone, List.append_nil]
  exact h

theorem reads_naturalText (value : Nat) :
    Reads (Decimal.naturalText value).toList (.number ⟨false, value, 0, 0, true⟩) := by
  have hzero : hasLeadingZero (Nat.toDigits 10 value) = false := by
    rcases Nat.eq_zero_or_pos value with rfl | hpos
    · rfl
    · exact hasLeadingZero_of_head (head_toDigits hpos)
  have hscan : scanMagnitude false (Nat.toDigits 10 value) =
      .found ⟨false, value, 0, 0, true⟩ [] := by
    rw [scanMagnitude_whole (digital_toDigits value) hzero, digitsValue_toDigits]
  rw [Decimal.naturalText, String.toList_ofList]
  exact reads_of_scan hscan

mutual

/-- The text of a value is read as the document of the value. -/
theorem reads_text (depth : Nat) : ∀ value : Json, Reads (value.text depth).toList value.draft
  | .null => reads_null
  | .boolean value => reads_boolean value
  | .natural value => reads_naturalText value
  | .number value => by
    rw [text, draft]
    split
    · exact (reads_numberText ‹_›).1
    · rw [numberText, if_neg ‹_›]
      exact reads_null
  | .string value => reads_quote value
  | .array [] => by
    have hempty : Reads ("[" ++ separated "," [] ++ "]").toList (.array [] none) := Reads.array .nil
    rwa [separated, String.append_empty] at hempty
  | .array (first :: rest) => by
    have htexts := reads_itemTexts (depth + 1) (first :: rest)
    rw [itemTexts] at htexts
    rw [text, draft]
    exact Reads.array_blank (isBlank_newLine depth) htexts
  | .object [] => by
    have hempty : Reads ("\x7b" ++ separated "," [] ++ "\x7d").toList (.object [] none) :=
      Reads.object .nil
    rwa [separated, String.append_empty] at hempty
  | .object (first :: rest) => by
    have htexts := reads_memberTexts (depth + 1) (first :: rest)
    rw [memberTexts] at htexts
    rw [text, draft]
    exact Reads.object_blank (isBlank_newLine depth) htexts

/-- The texts of items are read as their documents. -/
theorem reads_itemTexts (depth : Nat) : ∀ items : List Json,
    List.Forall₂ (fun (text : String) document => Reads text.toList document)
      (itemTexts depth items) (itemDrafts items)
  | [] => .nil
  | item :: rest => by
    rw [itemTexts, itemDrafts]
    refine .cons ?_ (reads_itemTexts depth rest)
    rw [String.toList_append]
    exact (reads_text depth item).behind_blank (isBlank_newLine depth)

/-- The texts of members are read as their keys and documents. -/
theorem reads_memberTexts (depth : Nat) : ∀ members : List (String × Json),
    List.Forall₂ (fun (text : String) member => ReadsMember text.toList member)
      (memberTexts depth members) (memberDrafts members)
  | [] => .nil
  | (key, value) :: rest => by
    rw [memberTexts, memberDrafts]
    refine .cons ?_ (reads_memberTexts depth rest)
    refine ⟨(newLine depth).toList ++ (quote key).toList, ' ' :: (value.text depth).toList, ?_,
      (reads_quote key).behind_blank (isBlank_newLine depth), ?_⟩
    · simp
    · have hspace : ∀ c ∈ [' '], isBlank c = true := by simp [isBlank]
      exact (reads_text depth value).behind_blank hspace

end

/-- A printed value is read as its document, and nothing is wrong behind it. -/
theorem read_print (value : Json) : Draft.read value.print = (value.draft, none) :=
  Reads.read (reads_text 0 value)

/-! ## Taking the document as a value -/

mutual

/-- The document of a value is taken as the value, if the budget admits its nesting. -/
theorem toJson_draft {budget : Nat} : ∀ {value : Json}, value.Exact → value.nesting ≤ budget →
    value.draft.toJson budget = .ok value
  | .null, _, _ => rfl
  | .boolean _, _, _ => rfl
  | .natural value, h, _ => by
    have hnat : Numeral.toNat? ⟨false, value, 0, 0, true⟩ = some value := by
      rw [Numeral.toNat?]
      simp [show value < naturalBound from h]
    rw [draft, Draft.toJson, Numeral.toJson?, hnat]
    rfl
  | .number value, h, _ => by
    obtain ⟨hfinite, htake⟩ := kept_iff.mp h
    have hwhole := (reads_numberText hfinite).2.2
    rw [draft, if_pos hfinite, Draft.toJson, Numeral.toJson?, Numeral.toNat?, hwhole, htake]
    rfl
  | .string _, _, _ => rfl
  | .array items, h, hn => by
    rw [nesting] at hn
    obtain ⟨budget, rfl⟩ : ∃ inner, budget = inner + 1 := ⟨budget - 1, by omega⟩
    rw [draft, Draft.toJson]
    simp only [itemsToJson_drafts h (Nat.le_of_succ_le_succ hn)]
    rfl
  | .object members, h, hn => by
    rw [nesting] at hn
    obtain ⟨budget, rfl⟩ : ∃ inner, budget = inner + 1 := ⟨budget - 1, by omega⟩
    rw [draft, Draft.toJson]
    simp only [membersToJson_drafts h (Nat.le_of_succ_le_succ hn)]
    rfl

/-- The same holds of items. -/
theorem itemsToJson_drafts {budget : Nat} : ∀ {items : List Json}, ExactItems items →
    nestingOfItems items ≤ budget → Draft.itemsToJson budget (itemDrafts items) = .ok items
  | [], _, _ => rfl
  | item :: rest, h, hn => by
    rw [nestingOfItems, Nat.max_le] at hn
    rw [itemDrafts, Draft.itemsToJson, toJson_draft h.1 hn.1]
    simp only [Except.bind, bind, itemsToJson_drafts h.2 hn.2]
    rfl

/-- The same holds of members. -/
theorem membersToJson_drafts {budget : Nat} : ∀ {members : List (String × Json)},
    ExactMembers members → nestingOfMembers members ≤ budget →
      Draft.membersToJson budget (memberDrafts members) = .ok members
  | [], _, _ => rfl
  | (key, value) :: rest, h, hn => by
    rw [nestingOfMembers, Nat.max_le] at hn
    rw [memberDrafts, Draft.membersToJson, toJson_draft h.1 hn.1]
    simp only [Except.bind, bind, membersToJson_drafts h.2 hn.2]
    rfl

end

end TypedRoutes.Json
