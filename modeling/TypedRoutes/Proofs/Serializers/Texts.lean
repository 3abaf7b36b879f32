import TypedRoutes.Artifact.Serialize
import TypedRoutes.Proofs.Json.Containers
import TypedRoutes.Proofs.Json.Numbers
import TypedRoutes.Proofs.Json.Quoting
import TypedRoutes.Proofs.Runtime.Lists
import TypedRoutes.Proofs.Serializers.Projection

/-!
# Texts of parts

The JSON text of an array or object from those of its parts, and the expressions that generated code
puts such texts together with: either all parts in one concatenation, or a list that is joined.
-/

namespace TypedRoutes.Runtime

variable {world : World} {env : Env} {texts : List String} {text : String}

/-! ## JSON texts -/

/-- The text is a key, a colon and the JSON text of a value. -/
def MemberText (text : String) (member : String × Data) : Prop :=
  ∃ key value, text = key ++ ":" ++ value ∧ JsonText key (.string member.1) ∧
    JsonText value member.2

/-- A quoted text is JSON for the text. -/
theorem JsonText.string (text : String) : JsonText (Json.quote text) (.string text) :=
  .of_reads (Json.reads_quote text) (.string text)

theorem JsonText.null : JsonText "null" .null :=
  .of_reads Json.reads_null .null

theorem JsonText.boolean (value : Bool) : JsonText (Json.booleanText value) (.boolean value) :=
  .of_reads (Json.reads_boolean value) (.boolean value)

/-- The literal of a finite number is a JSON text of it. -/
theorem JsonText.number {value : Float} (h : value.isFinite = true) :
    JsonText (numberLiteral value) (.number value) := by
  obtain ⟨numeral, read, hreads, hfloat, hequal⟩ := Json.reads_numberLiteral h
  exact .of_reads hreads (.number hfloat hequal)

/-- The text of a number is JSON for every number that is equal to it. -/
theorem JsonText.number_congr {value given : Float} (h : JsonText text (.number value))
    (hequal : (value == given) = true) : JsonText text (.number given) := by
  obtain ⟨document, hread, hholds⟩ := h
  cases hholds with
  | number reads equal => exact ⟨_, hread, .number reads (Decimal.beq_trans equal hequal)⟩

/-- Texts of the items, with commas between them and brackets around them, are JSON for an array. -/
theorem JsonText.array {images : List Data} (h : List.Forall₂ JsonText texts images) :
    JsonText ("[" ++ separated "," texts ++ "]") (.array images) := by
  obtain ⟨documents, hreads, hholds⟩ : ∃ documents,
      List.Forall₂ (fun (text : String) document => Json.Reads text.toList document) texts
        documents ∧ List.Forall₂ Holds documents images := by
    induction h with
    | nil => exact ⟨[], .nil, .nil⟩
    | cons hfirst _ ih =>
      obtain ⟨document, hread, hhold⟩ := hfirst.reads
      obtain ⟨documents, hreads, hholds⟩ := ih
      exact ⟨document :: documents, .cons hread hreads, .cons hhold hholds⟩
  exact .of_reads (Json.Reads.array hreads) (.array hholds)

/-- A key that is read is the string. -/
theorem JsonText.reads_string {key : String} (h : JsonText key (.string text)) :
    Json.Reads key.toList (.string (some text)) := by
  obtain ⟨document, hreads, hholds⟩ := h.reads
  cases hholds
  exact hreads

/-- Texts of the members, with commas between them and braces around them, are JSON for an object.
-/
theorem JsonText.object {members : List (String × Data)}
    (h : List.Forall₂ MemberText texts members) :
    JsonText ("\x7b" ++ separated "," texts ++ "\x7d") (.object members) := by
  obtain ⟨documents, hreads, hholds⟩ : ∃ documents,
      List.Forall₂ (fun (text : String) member => Json.ReadsMember text.toList member) texts
        (((members.map Prod.fst).map some).zip documents) ∧
      List.Forall₂ Holds documents (members.map Prod.snd) := by
    induction h with
    | nil => exact ⟨[], .nil, .nil⟩
    | cons hfirst _ ih =>
      obtain ⟨key, value, rfl, hkey, hvalue⟩ := hfirst
      obtain ⟨document, hread, hhold⟩ := hvalue.reads
      obtain ⟨documents, hreads, hholds⟩ := ih
      refine ⟨document :: documents, .cons ⟨key.toList, value.toList, ?_, ?_, hread⟩ hreads,
        .cons hhold hholds⟩
      · simp
      · exact hkey.reads_string
  have hobject : Holds (.object (((members.map Prod.fst).map some).zip documents) none)
      (.object ((members.map Prod.fst).zip (members.map Prod.snd))) := .object hholds
  rw [List.zip_map'] at hobject
  simp only [Prod.mk.eta, List.map_id'] at hobject
  exact .of_reads (Json.Reads.object hreads) hobject

/-! ## Commas -/

/-- Texts with a comma in front of each, or of each but the first. -/
def listed : Bool → List String → String
  | _, [] => ""
  | first, text :: rest => (if first then "" else ",") ++ text ++ listed false rest

theorem foldl_listed (rest : List String) (text : String) :
    rest.foldl (fun written next => written ++ "," ++ next) text = text ++ listed false rest := by
  induction rest generalizing text with
  | nil => simp [listed]
  | cons next rest ih =>
    rw [List.foldl_cons, ih]
    simp [listed, String.append_assoc]

/-- Texts that are listed from the first one on are separated by commas. -/
theorem listed_true (texts : List String) : listed true texts = separated "," texts := by
  cases texts with
  | nil => rfl
  | cons text rest =>
    rw [separated, foldl_listed]
    simp [listed]

/-! ## Expressions -/

namespace Spells

variable {expr : Expr} {exprs parts : List Expr} {more : String}

/-- Parts between an opening and a closing text. -/
theorem enclosed (opening closing : String)
    (h : Pieces world env (Expr.flatten .plus parts) text) :
    Spells world env (Expr.concatenation (.string opening :: parts ++ [.string closing]))
      (opening ++ text ++ closing) := by
  have hshape : Expr.flatten .plus (.string opening :: parts ++ [.string closing]) =
      .string opening :: (Expr.flatten .plus parts ++ [.string closing]) := by
    simp [Expr.flatten, Expr.operands]
  have hclosing : Pieces world env [.string closing] closing :=
    .singleton (Evaluates.string closing) rfl
  refine .concatenation ?_ ?_
  · rw [hshape, String.append_assoc]
    exact (h.append hclosing).string_cons opening
  · rw [hshape]
    rintro _ ⟨⟩
    exact ⟨opening, Evaluates.string opening⟩

/-- Items joined by commas between an opening and a closing text. -/
theorem bracketed {target : Expr} {items : List Data} (opening closing : String)
    (h : Evaluates world env target (.data (.array items)))
    (htexts : items.mapM (joinText? world) = some texts) :
    Spells world env (Scope.bracketed opening target closing)
      (opening ++ separated "," texts ++ closing) := by
  have hjoined : Spells world env (.invoke (.property target "join") [.string ","])
      (separated "," texts) := .of_evaluates rfl (h.join "," htexts)
  have hpieces : Pieces world env (Expr.flatten .plus
      [.invoke (.property target "join") [.string ","]]) (separated "," texts) := by
    simpa [Expr.flatten] using hjoined.pieces
  exact enclosed opening closing hpieces

/-- A key in front of a colon and a value. -/
theorem member {key value : Expr} (hkey : Spells world env key text)
    (hvalue : Pieces world env (value.operands .plus) more) :
    Spells world env (Expr.concatenation [key, .string ":", value]) (text ++ ":" ++ more) := by
  have hrest : Pieces world env (Expr.flatten .plus [value]) more := by
    simpa [Expr.flatten] using hvalue
  have hcolon : Pieces world env (Expr.flatten .plus [.string ":", value]) (":" ++ more) :=
    hrest.string_cons ":"
  refine .concatenation ?_ (hkey.starts.flatten_cons _)
  rw [String.append_assoc]
  exact hkey.pieces.flatten_cons hcolon

/-- A label in front of a text. -/
theorem labelled (label : String) (h : Pieces world env (expr.operands .plus) text) :
    Spells world env (Expr.concatenation [.string label, expr]) (label ++ text) := by
  have hpieces : Pieces world env (Expr.flatten .plus [.string label, expr]) (label ++ text) := by
    rw [← String.append_empty (s := text)]
    exact (h.flatten_cons .nil).string_cons label
  refine .concatenation hpieces ?_
  rintro _ ⟨⟩
  exact ⟨label, Evaluates.string label⟩

end Spells

end TypedRoutes.Runtime
