import TypedRoutes.Proofs.Json.Tokens
import TypedRoutes.Text.Quoted

/-!
# Texts of documents

A text that is read as a document without a break is read as the same document inside an array or
object. So the text of an array or object is put together from the texts of its parts.
-/

namespace TypedRoutes.Json

/-- The text is that of the document and nothing else; nothing in it breaks off. -/
def Reads (cs : List Char) (document : Draft) : Prop :=
  Reader.start.takeAll (tokens cs) = .after document

/-- Whether a document itself, and not only a part of it, tells where the text breaks off. -/
def Draft.isBroken : Draft → Bool
  | .broken _ => true
  | .array _ ending => ending.isSome
  | .object _ ending => ending.isSome
  | _ => false

variable {cs : List Char} {document : Draft} {verdict : Break}

namespace Reader

variable {reader : Reader} {frames outer : List Frame} {expected : Expected} {token : Token}

theorem takeAll_cons (reader : Reader) (token : Token) (tokens : List Token) :
    reader.takeAll (token :: tokens) = (reader.take token).takeAll tokens := rfl

/-- Tokens are taken one after the other. -/
theorem takeAll_append (reader : Reader) (before behind : List Token) :
    reader.takeAll (before ++ behind) = (reader.takeAll before).takeAll behind :=
  List.foldl_append

/-! ## Readers that have stopped -/

/-- A reader that has stopped takes nothing more. -/
theorem takeAll_stopped (document : Draft) (trailing : Option Break) (tokens : List Token) :
    (Reader.stopped document trailing).takeAll tokens = .stopped document trailing := by
  induction tokens with
  | nil => rfl
  | cons token rest ih => exact ih

/-- Behind a document nothing is taken. -/
theorem eq_of_takeAll_after {found : Draft} {tokens : List Token}
    (h : (Reader.after found).takeAll tokens = .after document) :
    tokens = [] ∧ found = document := by
  cases tokens with
  | nil => exact ⟨rfl, Reader.after.inj h⟩
  | cons token rest =>
    rw [takeAll_cons, take, takeAll_stopped] at h
    cases h

/-- What breaks off inside containers breaks them off. -/
theorem closeFrames_isBroken (frames : List Frame) (h : document.isBroken = true) :
    (closeFrames verdict frames document).isBroken = true := by
  induction frames generalizing document with
  | nil => exact h
  | cons frame outer ih => cases frame <;> exact ih rfl

/-- A document that breaks off is broken. -/
theorem breakOff_isBroken (frames : List Frame) (expected : Expected) (verdict : Break) :
    (breakOff frames expected verdict).isBroken = true := by
  have hvalue (frames : List Frame) (verdict : Break) :
      (breakAtValue frames verdict).isBroken = true := closeFrames_isBroken frames rfl
  have hbetween (frames : List Frame) (verdict : Break) :
      (breakBetween frames verdict).isBroken = true := by
    rcases frames with _ | ⟨_ | _, outer⟩
    · rfl
    · exact closeFrames_isBroken outer rfl
    · exact closeFrames_isBroken outer rfl
  cases expected
  case key => exact hbetween frames _
  case firstKey | separator => exact hbetween frames verdict
  all_goals exact hvalue frames verdict

/-- A reader that has stopped before the end of its document has a broken one. -/
def Sound : Reader → Prop
  | .stopped document none => document.isBroken = true
  | _ => True

/-- A value that is placed leaves the reader sound. -/
theorem sound_place (frames : List Frame) (value : Draft) : (place frames value).Sound := by
  rcases frames with _ | ⟨_ | _, outer⟩ <;> trivial

/-- A refusal leaves the reader sound. -/
theorem sound_refuse (frames : List Frame) (expected : Expected) : (refuse frames expected).Sound :=
  breakOff_isBroken frames expected _

/-- So does any token where a value is wanted. -/
theorem sound_takeValue (frames : List Frame) (expected : Expected) (token : Token) :
    (takeValue frames expected token).Sound := by
  cases token
  case openArray | openObject => trivial
  case broken => exact breakOff_isBroken frames .value _
  case closeArray | closeObject | comma | colon => exact sound_refuse frames expected
  all_goals exact sound_place frames _

/-- So does any token where a key is wanted. -/
theorem sound_takeKey (frames : List Frame) (expected : Expected) (token : Token) :
    (takeKey frames expected token).Sound := by
  fun_cases takeKey frames expected token
  · trivial
  · exact sound_refuse frames expected
  · exact breakOff_isBroken frames expected _
  · exact breakOff_isBroken frames expected _

/-- One token keeps a reader sound. -/
theorem Sound.take (h : reader.Sound) (token : Token) : (reader.take token).Sound := by
  fun_cases Reader.take reader token
  all_goals first
    | trivial
    | exact h
    | exact sound_place _ _
    | exact sound_refuse _ _
    | exact sound_takeValue _ _ _
    | exact sound_takeKey _ _ _

/-- All tokens do. -/
theorem Sound.takeAll (h : reader.Sound) (tokens : List Token) : (reader.takeAll tokens).Sound := by
  induction tokens generalizing reader with
  | nil => exact h
  | cons token rest ih => exact ih (h.take token)

/-- Whether a reader takes nothing any more. -/
def HasStopped (reader : Reader) : Prop :=
  ∃ document trailing, reader = .stopped document trailing

/-- A broken token stops every reader. -/
theorem hasStopped_take_broken (reader : Reader) (quoted : Bool) (verdict : Break) :
    (reader.take (.broken quoted verdict)).HasStopped := by
  cases reader with
  | after document => exact ⟨_, _, rfl⟩
  | stopped document trailing => exact ⟨_, _, rfl⟩
  | inside frames expected =>
    rcases frames with _ | ⟨_ | _, outer⟩ <;> cases expected <;> cases quoted <;>
      exact ⟨_, _, rfl⟩

/-- A reader that ends behind a document has not stopped before. -/
theorem not_hasStopped {tokens : List Token} (h : reader.takeAll tokens = .after document) :
    ¬ reader.HasStopped := by
  rintro ⟨found, trailing, rfl⟩
  rw [takeAll_stopped] at h
  cases h

/-- A document that was read to its end has no broken token. -/
theorem isBroken_of_takeAll {tokens : List Token} (h : reader.takeAll tokens = .after document) :
    ∀ token ∈ tokens, token.isBroken = false := by
  induction tokens generalizing reader with
  | nil =>
    intro token hmem
    cases hmem
  | cons first rest ih =>
    rw [takeAll_cons] at h
    refine List.forall_mem_cons.mpr ⟨?_, ih h⟩
    cases first
    case broken quoted verdict =>
      exact (not_hasStopped h (hasStopped_take_broken reader quoted verdict)).elim
    all_goals rfl

/-! ## The same tokens further inside -/

/-- The reader with more arrays and objects open around it. -/
def within (outer : List Frame) : Reader → Reader
  | .inside frames expected => .inside (frames ++ outer) expected
  | .after document => .place outer document
  | .stopped document trailing => .stopped document trailing

/-- A value is placed alike with more containers around it. -/
theorem within_place (outer frames : List Frame) (value : Draft) :
    (place frames value).within outer = place (frames ++ outer) value := by
  rcases frames with _ | ⟨_ | _, inner⟩ <;> rfl

/-- A token is taken alike with more containers around, unless it stops the reader. -/
theorem takeValue_within (hgoes : ¬ (takeValue frames expected token).HasStopped) :
    takeValue (frames ++ outer) expected token =
      (takeValue frames expected token).within outer := by
  cases token
  case openArray | openObject => rfl
  case broken | closeArray | closeObject | comma | colon => exact (hgoes ⟨_, _, rfl⟩).elim
  all_goals exact (within_place outer frames _).symm

/-- The same where a key is wanted. -/
theorem takeKey_within (hgoes : ¬ (takeKey frames expected token).HasStopped) :
    takeKey (frames ++ outer) expected token = (takeKey frames expected token).within outer := by
  rcases frames with _ | ⟨_ | _, inner⟩ <;> cases token
  all_goals first
    | rfl
    | exact (hgoes ⟨_, _, rfl⟩).elim
    | skip
  all_goals
    rename_i quoted verdict
    cases quoted <;> exact (hgoes ⟨_, _, rfl⟩).elim

/-- An empty array is closed, or has a first item. -/
theorem take_firstItem (frames : List Frame) (hopen : token ≠ .closeArray) :
    (inside frames .firstItem).take token = takeValue frames .firstItem token := by
  rw [take]
  exact fun _ _ _ => hopen

/-- An empty object is closed, or has a first key. -/
theorem take_firstKey (frames : List Frame) (hopen : token ≠ .closeObject) :
    (inside frames .firstKey).take token = takeKey frames .firstKey token := by
  rw [take]
  exact fun _ _ _ _ => hopen

/-- A token that is taken is taken further inside as well. -/
theorem take_within (hgoes : ¬ ((inside frames expected).take token).HasStopped) :
    (inside (frames ++ outer) expected).take token =
      ((inside frames expected).take token).within outer := by
  cases expected with
  | value => exact takeValue_within hgoes
  | key => exact takeKey_within hgoes
  | firstItem =>
    by_cases hclose : token = .closeArray
    · subst hclose
      rcases frames with _ | ⟨_ | _, inner⟩
      · exact (hgoes ⟨_, _, rfl⟩).elim
      · exact (within_place outer inner _).symm
      · exact (hgoes ⟨_, _, rfl⟩).elim
    · rw [take_firstItem _ hclose] at hgoes ⊢
      rw [take_firstItem _ hclose]
      exact takeValue_within hgoes
  | firstKey =>
    by_cases hclose : token = .closeObject
    · subst hclose
      rcases frames with _ | ⟨_ | _, inner⟩
      · exact (hgoes ⟨_, _, rfl⟩).elim
      · exact (hgoes ⟨_, _, rfl⟩).elim
      · exact (within_place outer inner _).symm
    · rw [take_firstKey _ hclose] at hgoes ⊢
      rw [take_firstKey _ hclose]
      exact takeKey_within hgoes
  | colon =>
    cases token
    case colon => rfl
    all_goals exact (hgoes ⟨_, _, rfl⟩).elim
  | separator =>
    rcases frames with _ | ⟨_ | _, inner⟩ <;> cases token
    all_goals first
      | rfl
      | exact (within_place outer inner _).symm
      | exact (hgoes ⟨_, _, rfl⟩).elim

/-- Tokens that make a document make it further inside as well. -/
theorem takeAll_within {tokens : List Token}
    (h : (inside frames expected).takeAll tokens = .after document) :
    (inside (frames ++ outer) expected).takeAll tokens = place outer document := by
  induction tokens generalizing frames expected with
  | nil => cases h
  | cons token rest ih =>
    rw [takeAll_cons] at h ⊢
    rw [take_within (not_hasStopped h)]
    cases hnext : (inside frames expected).take token with
    | inside inner next =>
      rw [hnext] at h
      exact ih h
    | after found =>
      rw [hnext] at h
      obtain ⟨rfl, rfl⟩ := eq_of_takeAll_after h
      rfl
    | stopped found trailing => exact (not_hasStopped h ⟨_, _, hnext⟩).elim

end Reader

namespace Reads

open Reader

/-- The draft of the text, nothing being wrong behind it. -/
theorem read {text : String} (h : Reads text.toList document) :
    Draft.read text = (document, none) := by
  rw [Draft.read, Reader.run_eq, h]
  rfl

/-- A text that is read without a break. -/
theorem of_read {text : String} (h : Draft.read text = (document, none))
    (hwhole : document.isBroken = false) : Reads text.toList document := by
  rw [Draft.read, Reader.run_eq] at h
  have hsound : (Reader.start.takeAll (tokens text.toList)).Sound :=
    Sound.takeAll (by trivial) _
  rw [Reads]
  cases hreader : Reader.start.takeAll (tokens text.toList) with
  | after found =>
    rw [hreader] at h
    rw [(Prod.mk.inj h).1]
  | stopped found trailing =>
    rw [hreader] at h hsound
    obtain ⟨rfl, rfl⟩ := Prod.mk.inj h
    rw [hsound] at hwhole
    cases hwhole
  | inside frames expected =>
    rw [hreader] at h
    rw [← (Prod.mk.inj h).1, breakOff_isBroken] at hwhole
    cases hwhole

/-- What is read as a document has no broken token. -/
theorem isBroken (h : Reads cs document) : ∀ token ∈ tokens cs, token.isBroken = false :=
  isBroken_of_takeAll h

/-- What stands behind the text is read on its own. -/
theorem tokens_append (h : Reads cs document) {more : List Char} (hmore : EndsNumber more) :
    tokens (cs ++ more) = tokens cs ++ tokens more :=
  Json.tokens_append hmore h.isBroken

/-- Where a value is wanted, the document is placed there. -/
theorem takeAll_value (h : Reads cs document) (frames : List Frame) :
    (Reader.inside frames .value).takeAll (tokens cs) = .place frames document := by
  have hwithin : (Reader.inside ([] ++ frames) .value).takeAll (tokens cs) =
      .place frames document := takeAll_within h
  exact hwithin

/-- The same holds of the first item of an array. -/
theorem takeAll_firstItem (h : Reads cs document) (frames : List Frame) :
    (Reader.inside frames .firstItem).takeAll (tokens cs) = .place frames document := by
  rw [← h.takeAll_value frames]
  cases htokens : tokens cs with
  | nil =>
    rw [Reads, htokens] at h
    cases h
  | cons token rest =>
    rw [Reads, htokens, takeAll_cons] at h
    have hgoes := not_hasStopped h
    rw [takeAll_cons, takeAll_cons]
    cases token
    case broken | closeArray | closeObject | comma | colon => exact (hgoes ⟨_, _, rfl⟩).elim
    all_goals rw [take_firstItem _ (by simp)]; rfl

end Reads

end TypedRoutes.Json
