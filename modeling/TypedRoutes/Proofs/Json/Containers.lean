import TypedRoutes.Proofs.Json.Documents
import Mathlib.Data.List.Forall2

/-!
# Texts of arrays and objects

The texts of items and members with commas between them, inside brackets or braces. A text that is
read as a string consists of a single token, so it can stand in front of a colon as well.
-/

namespace TypedRoutes.Json

namespace Reader

variable {reader : Reader} {frames : List Frame} {token : Token}

/-- A reader inside an array or object, or behind one. -/
def Containing : Reader → Prop
  | .inside frames _ => frames ≠ []
  | .after (.array _ _) => True
  | .after (.object _ _) => True
  | .after _ => False
  | .stopped _ _ => True

/-- A reader inside something stays there with one more value. -/
theorem containing_place (hopen : frames ≠ []) (value : Draft) :
    (place frames value).Containing := by
  rcases frames with _ | ⟨_ | _, outer⟩
  · exact absurd rfl hopen
  · exact List.cons_ne_nil _ _
  · exact List.cons_ne_nil _ _

/-- It stays there whatever token comes where a value is wanted. -/
theorem containing_takeValue (hopen : frames ≠ []) (expected : Expected) (token : Token) :
    (takeValue frames expected token).Containing := by
  cases token
  case openArray | openObject => exact List.cons_ne_nil _ _
  case broken | closeArray | closeObject | comma | colon => trivial
  all_goals exact containing_place hopen _

/-- It stays there whatever token comes where a key is wanted. -/
theorem containing_takeKey (frames : List Frame) (expected : Expected) (token : Token) :
    (takeKey frames expected token).Containing := by
  fun_cases takeKey frames expected token
  · exact List.cons_ne_nil _ _
  all_goals trivial

/-- Where an array or object is closed, it is behind the reader or inside another one. -/
theorem containing_close_array (outer : List Frame) (items : List Draft) (ending : Option Break) :
    (place outer (.array items ending)).Containing := by
  rcases outer with _ | ⟨_ | _, inner⟩
  · trivial
  · exact List.cons_ne_nil _ _
  · exact List.cons_ne_nil _ _

/-- It stays there or is behind the document when an object is closed. -/
theorem containing_close_object (outer : List Frame) (members : List (Option String × Draft))
    (ending : Option Break) : (place outer (.object members ending)).Containing := by
  rcases outer with _ | ⟨_ | _, inner⟩
  · trivial
  · exact List.cons_ne_nil _ _
  · exact List.cons_ne_nil _ _

/-- One token keeps it there. -/
theorem Containing.take (h : reader.Containing) (token : Token) :
    (reader.take token).Containing := by
  fun_cases Reader.take reader token
  all_goals first
    | trivial
    | exact containing_close_array _ _ _
    | exact containing_close_object _ _ _
    | exact containing_takeKey _ _ _
    | exact containing_takeValue h _ _

/-- All tokens keep it there. -/
theorem Containing.takeAll (h : reader.Containing) (tokens : List Token) :
    (reader.takeAll tokens).Containing := by
  induction tokens generalizing reader with
  | nil => exact h
  | cons token rest ih => exact ih (h.take token)

end Reader

namespace Reads

open Reader

variable {cs key value more : List Char} {document : Draft} {text : Option String}

/-- The text of a string is one token. -/
theorem tokens_string (h : Reads cs (.string text)) : tokens cs = [.string text] := by
  cases htokens : tokens cs with
  | nil =>
    rw [Reads, htokens] at h
    cases h
  | cons token rest =>
    rw [Reads, htokens, takeAll_cons] at h
    have hgoes := not_hasStopped h
    have hnone (frame : Frame) (expected : Expected) :
        (Reader.inside [frame] expected).takeAll rest ≠ .after (.string text) := by
      intro hinside
      have hopen : (Reader.inside [frame] expected).Containing := List.cons_ne_nil _ _
      have hcontaining := hopen.takeAll rest
      rw [hinside] at hcontaining
      exact hcontaining
    cases token
    case broken | closeArray | closeObject | comma | colon => exact (hgoes ⟨_, _, rfl⟩).elim
    case openArray | openObject => exact (hnone _ _ h).elim
    all_goals
      obtain ⟨rfl, hsame⟩ := eq_of_takeAll_after h
      cases hsame
      try rfl

end Reads

/-! ## Parts with commas between them -/

/-- Separated texts are the first one and each other behind a separator. -/
theorem toList_separated (separator first : String) (rest : List String) :
    (separated separator (first :: rest)).toList =
      first.toList ++ rest.flatMap fun text => separator.toList ++ text.toList := by
  rw [separated]
  induction rest generalizing first with
  | nil => simp
  | cons next rest ih =>
    rw [List.foldl_cons, ih]
    simp

/-- A comma is a token of its own. -/
theorem tokens_comma (cs : List Char) : tokens (',' :: cs) = .comma :: tokens cs := by
  rw [tokens]
  rfl

/-- A colon is a token of its own. -/
theorem tokens_colon (cs : List Char) : tokens (':' :: cs) = .colon :: tokens cs := by
  rw [tokens]
  rfl

/-- A bracket is a token of its own. -/
theorem tokens_openArray (cs : List Char) : tokens ('[' :: cs) = .openArray :: tokens cs := by
  rw [tokens]
  rfl

theorem tokens_closeArray (cs : List Char) : tokens (']' :: cs) = .closeArray :: tokens cs := by
  rw [tokens]
  rfl

theorem tokens_openObject (cs : List Char) :
    tokens ('\x7b' :: cs) = .openObject :: tokens cs := by
  rw [tokens]
  rfl

theorem tokens_closeObject (cs : List Char) :
    tokens ('\x7d' :: cs) = .closeObject :: tokens cs := by
  rw [tokens]
  rfl

/-- A mark ends a number. -/
theorem endsNumber_cons {c : Char} (h : c ∈ [',', ':', ']', '\x7d']) (rest : List Char) :
    EndsNumber (c :: rest) := by
  rintro _ ⟨⟩
  simp only [List.mem_cons, List.not_mem_nil, or_false] at h
  rcases h with rfl | rfl | rfl | rfl <;> decide

/-- Blanks separate tokens only. -/
theorem tokens_blank {blank : List Char} (h : ∀ c ∈ blank, isBlank c = true) (cs : List Char) :
    tokens (blank ++ cs) = tokens cs := by
  induction blank with
  | nil => rfl
  | cons c blank ih =>
    obtain ⟨hfirst, hrest⟩ := List.forall_mem_cons.mp h
    rw [List.cons_append, tokens, if_pos hfirst, ih hrest]

/-- Blanks in front of what ends a number end it too. -/
theorem endsNumber_blank {blank cs : List Char} (h : ∀ c ∈ blank, isBlank c = true)
    (hends : EndsNumber cs) : EndsNumber (blank ++ cs) := by
  cases blank with
  | nil => exact hends
  | cons c blank =>
    rintro _ ⟨⟩
    have hc := h c (by simp)
    simp only [isBlank, Bool.or_eq_true, beq_iff_eq] at hc
    rcases hc with ((rfl | rfl) | rfl) | rfl <;> decide

/-- Behind a comma, the text adds one more part to those that a reader is in the middle of. -/
structure Adds {α : Type} (state : List α → Reader) (cs : List Char) (part : α) : Prop where
  whole : ∀ token ∈ tokens cs, token.isBroken = false
  adds : ∀ before, ((state before).take .comma).takeAll (tokens cs) = state (part :: before)

variable {α : Type} {state : List α → Reader} {texts : List String} {parts : List α}
  {more : List Char}

/-- What stands between commas ends a number. -/
theorem endsNumber_parts (hmore : EndsNumber more) (texts : List String) :
    EndsNumber (texts.flatMap (fun text => ',' :: text.toList) ++ more) := by
  cases texts with
  | nil => exact hmore
  | cons text rest => exact endsNumber_cons (by simp) _

/-- Parts between commas are added one by one. -/
theorem takeAll_parts (hmore : EndsNumber more)
    (h : List.Forall₂ (fun text part => Adds state text.toList part) texts parts)
    (before : List α) :
    (state before).takeAll (tokens (texts.flatMap (fun text => ',' :: text.toList) ++ more)) =
      (state (parts.reverse ++ before)).takeAll (tokens more) := by
  induction h generalizing before with
  | nil => rfl
  | @cons text part texts parts hadds _ ih =>
    have hends := endsNumber_parts hmore texts
    rw [List.flatMap_cons, List.cons_append, List.cons_append, List.append_assoc, tokens_comma,
      tokens_append hends hadds.whole, Reader.takeAll_cons, Reader.takeAll_append, hadds.adds, ih]
    simp

/-! ## Arrays -/

/-- A document is one more item of an array. -/
theorem Reads.adds_item {cs : List Char} {document : Draft} (h : Reads cs document) :
    Adds (fun items => .inside [.array items] .separator) cs document where
  whole := h.isBroken
  adds := fun _ => h.takeAll_value _

/-- The text of an array, with blank text in front of its closing bracket. -/
theorem Reads.array_blank {documents : List Draft} {blank : String}
    (hblank : ∀ c ∈ blank.toList, isBlank c = true)
    (h : List.Forall₂ (fun (text : String) document => Reads text.toList document) texts
      documents) :
    Reads ("[" ++ separated "," texts ++ blank ++ "]").toList (.array documents none) := by
  have hclose := endsNumber_blank hblank (endsNumber_cons (c := ']') (by simp) [])
  cases h with
  | nil =>
    simp only [Reads, separated, String.toList_append, String.reduceToList, List.cons_append,
      List.nil_append]
    rw [tokens_openArray, tokens_blank hblank, tokens_closeArray, tokens]
    rfl
  | @cons text document texts documents hfirst hrest =>
    have hparts := takeAll_parts hclose (hrest.imp fun _ _ => Reads.adds_item) [document]
    have hends := endsNumber_parts hclose texts
    rw [String.toList_append, String.toList_append, String.toList_append, toList_separated]
    simp only [Reads, String.reduceToList, List.cons_append, List.nil_append, List.append_assoc]
    rw [tokens_openArray, hfirst.tokens_append hends, Reader.takeAll_cons, Reader.takeAll_append]
    refine (congrArg (Reader.takeAll · _) (hfirst.takeAll_firstItem _)).trans ?_
    refine hparts.trans ?_
    rw [tokens_blank hblank, tokens_closeArray, tokens]
    simp [Reader.takeAll, Reader.take, Reader.place]

/-- The text of an array. -/
theorem Reads.array {documents : List Draft}
    (h : List.Forall₂ (fun (text : String) document => Reads text.toList document) texts
      documents) :
    Reads ("[" ++ separated "," texts ++ "]").toList (.array documents none) := by
  have hblank : ∀ c ∈ "".toList, isBlank c = true := by simp
  simpa using Reads.array_blank hblank h

/-! ## Objects -/

/-- The text of a member: its key, a colon and its value. -/
def ReadsMember (cs : List Char) (member : Option String × Draft) : Prop :=
  ∃ key value, cs = key ++ ':' :: value ∧ Reads key (.string member.1) ∧ Reads value member.2

/-- The key that stands in an object behind its last member. -/
def lastKey : List (Option String × Draft) → Option String
  | [] => none
  | member :: _ => member.1

variable {cs : List Char} {member : Option String × Draft}

/-- The tokens of a member are its key, a colon and those of its value. -/
theorem ReadsMember.tokens_eq (h : ReadsMember cs member) :
    ∃ value, Reads value member.2 ∧ tokens cs = .string member.1 :: .colon :: tokens value := by
  obtain ⟨key, value, rfl, hkey, hvalue⟩ := h
  refine ⟨value, hvalue, ?_⟩
  rw [hkey.tokens_append (endsNumber_cons (by simp) value), hkey.tokens_string, tokens_colon]
  rfl

/-- None of the tokens of a member is broken. -/
theorem ReadsMember.whole (h : ReadsMember cs member) :
    ∀ token ∈ tokens cs, token.isBroken = false := by
  obtain ⟨value, hvalue, htokens⟩ := h.tokens_eq
  rw [htokens]
  exact List.forall_mem_cons.mpr ⟨rfl, List.forall_mem_cons.mpr ⟨rfl, hvalue.isBroken⟩⟩

/-- A member is one more member of an object. -/
theorem ReadsMember.adds_member (h : ReadsMember cs member) :
    Adds (fun members => .inside [.object members (lastKey members)] .separator) cs member where
  whole := h.whole
  adds := by
    intro before
    obtain ⟨value, hvalue, htokens⟩ := h.tokens_eq
    rw [htokens]
    exact hvalue.takeAll_value [.object before member.1]

/-- The text of an object, with blank text in front of its closing brace. -/
theorem Reads.object_blank {members : List (Option String × Draft)} {blank : String}
    (hblank : ∀ c ∈ blank.toList, isBlank c = true)
    (h : List.Forall₂ (fun (text : String) member => ReadsMember text.toList member) texts
      members) :
    Reads ("\x7b" ++ separated "," texts ++ blank ++ "\x7d").toList (.object members none) := by
  have hclose := endsNumber_blank hblank (endsNumber_cons (c := '\x7d') (by simp) [])
  cases h with
  | nil =>
    simp only [Reads, separated, String.toList_append, String.reduceToList, List.cons_append,
      List.nil_append]
    rw [tokens_openObject, tokens_blank hblank, tokens_closeObject, tokens]
    rfl
  | @cons text member texts members hfirst hrest =>
    have hparts := takeAll_parts hclose (hrest.imp fun _ _ => ReadsMember.adds_member) [member]
    have hends := endsNumber_parts hclose texts
    obtain ⟨value, hvalue, htokens⟩ := hfirst.tokens_eq
    rw [String.toList_append, String.toList_append, String.toList_append, toList_separated]
    simp only [Reads, String.reduceToList, List.cons_append, List.nil_append, List.append_assoc]
    rw [tokens_openObject, Json.tokens_append hends hfirst.whole, Reader.takeAll_cons,
      Reader.takeAll_append, htokens]
    refine (congrArg (Reader.takeAll · _)
      (hvalue.takeAll_value [.object [] member.1])).trans ?_
    refine hparts.trans ?_
    rw [tokens_blank hblank, tokens_closeObject, tokens]
    simp [Reader.takeAll, Reader.take, Reader.place]

/-- The text of an object. -/
theorem Reads.object {members : List (Option String × Draft)}
    (h : List.Forall₂ (fun (text : String) member => ReadsMember text.toList member) texts
      members) :
    Reads ("\x7b" ++ separated "," texts ++ "\x7d").toList (.object members none) := by
  have hblank : ∀ c ∈ "".toList, isBlank c = true := by simp
  simpa using Reads.object_blank hblank h

end TypedRoutes.Json
