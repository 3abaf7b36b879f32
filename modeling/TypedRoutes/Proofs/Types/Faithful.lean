import TypedRoutes.Proofs.Types.Places
import TypedRoutes.Proofs.Types.Words

/-!
# Type texts are faithful

What is read from the text of a type is the type in flattened form. So two types that are written
with one text are the same up to flattening: no grouping of the parts of a type is lost in its text.
-/

namespace TypedRoutes

namespace TypeText

open Grammar

variable {letters : Alphabet} {frames : List Frame} {level : Level} {expr : TypeExpr}
  {types : List TypeExpr} {c : Char}

/-! ## Marks behind a type -/

/-- Behind an ampersand the next part is wanted. -/
theorem step?_ampersand {parts : List TypeExpr} (h : level.parts? = some parts) :
    step? (.type frames level) (.mark '&') = some (.type frames ⟨level.members, parts, none⟩) := by
  obtain ⟨type, hlast, -⟩ := Option.map_eq_some_iff.mp h
  simp only [step?, hlast, follow?, h, if_true, Option.map_some]

/-- Behind a bar the next member is wanted. -/
theorem step?_bar {members : List TypeExpr} (h : level.members? = some members) :
    step? (.type frames level) (.mark '|') = some (.type frames ⟨members, [], none⟩) := by
  obtain ⟨parts, hparts, -⟩ := Option.map_eq_some_iff.mp h
  obtain ⟨type, hlast, -⟩ := Option.map_eq_some_iff.mp hparts
  simp only [step?, hlast, follow?, h, if_true, Option.map_some]
  rfl

/-- The other marks end a type. -/
theorem step?_close {frame : Frame} {type : TypeExpr} (h : level.type? = some type)
    (hc : c ∉ ['&', '|', '[', '<']) :
    step? (.type (frame :: frames) level) (.mark c) = frame.close c frames type := by
  obtain ⟨members, hmembers, -⟩ := Option.map_eq_some_iff.mp h
  obtain ⟨parts, hparts, -⟩ := Option.map_eq_some_iff.mp hmembers
  obtain ⟨last, hlast, -⟩ := Option.map_eq_some_iff.mp hparts
  simp only [List.mem_cons, List.not_mem_nil, or_false, not_or] at hc
  simp only [step?, hlast, follow?, hc, if_false, h, Option.bind_some]

/-! ## What is read from a text -/

/-- The text is read as the flattened form of the type. -/
def ReadsAsOperand (letters : Alphabet) (cs : List Char) (expr : TypeExpr) : Prop :=
  ∀ frames level, level.last = none →
    Reads letters cs (.type frames level) (.type frames (level.take expr.flat))

/-- The text is read as what the type adds to an intersection. -/
def ReadsAsParts (letters : Alphabet) (cs : List Char) (expr : TypeExpr) : Prop :=
  ∀ frames level, level.last = none → ∃ next,
    Reads letters cs (.type frames level) (.type frames next) ∧ next.members = level.members ∧
      next.parts? = some (level.parts ++ Junction.intersection.spread expr.flat)

/-- The text is read as what the type adds to a union. -/
def ReadsAsMembers (letters : Alphabet) (cs : List Char) (expr : TypeExpr) : Prop :=
  ∀ frames members, ∃ next,
    Reads letters cs (.type frames ⟨members, [], none⟩) (.type frames next) ∧
      next.members? = some (members ++ Junction.union.spread expr.flat)

/-- What is read as an operand is read as parts. -/
theorem ReadsAsOperand.parts {cs : List Char} (h : ReadsAsOperand letters cs expr) :
    ReadsAsParts letters cs expr :=
  fun frames level hlast => ⟨_, h frames level hlast, rfl, rfl⟩

/-- What is read as parts is read as members. -/
theorem ReadsAsParts.members {cs : List Char} (h : ReadsAsParts letters cs expr) :
    ReadsAsMembers letters cs expr := by
  intro frames members
  obtain ⟨next, hreads, hmembers, hparts⟩ := h frames ⟨members, [], none⟩ rfl
  refine ⟨next, hreads, ?_⟩
  rw [Level.members?, hparts, hmembers, List.nil_append, Option.map_some,
    (TypeExpr.isFlat_flat expr).join_spread]

/-- The text of the type can be read: as one operand if it is neither a union nor an intersection,
as parts if it is no union, and always as members. -/
structure Readable (letters : Alphabet) (expr : TypeExpr) : Prop where
  operand : expr.isComposite = false → ReadsAsOperand letters expr.text.toList expr
  parts : expr.isUnion = false → ReadsAsParts letters expr.text.toList expr
  members : ReadsAsMembers letters expr.text.toList expr

namespace Readable

/-- What is read as an operand can be read wherever a type stands. -/
theorem of_operand (h : ReadsAsOperand letters expr.text.toList expr) : Readable letters expr :=
  ⟨fun _ => h, fun _ => h.parts, h.parts.members⟩

/-- A word by itself. -/
theorem word (hword : IsWord letters expr.text) (htype : wordType expr.text = expr)
    (hflat : expr.flat = expr) : Readable letters expr := by
  refine .of_operand fun frames level hlast => .word hword ?_
  rw [step?, hlast, Option.isNone_none, if_pos rfl, htype, hflat]

/-- A built-in name. -/
theorem keyword {name : String} (h : name ∈ builtins) : Readable letters (.keyword name) :=
  word (isWord_builtin h) (wordType_builtin h) rfl

/-- A name of its own. -/
theorem named {name : String} (h : isTypeName letters name = true) :
    Readable letters (.named name) :=
  word (isWord_of_isTypeName h) (wordType_of_isTypeName h) rfl

/-- A literal that is a word. -/
theorem literal {text : String} (hword : IsWord letters text) (h : isLiteral text = true) :
    Readable letters (.literal text) :=
  word hword (wordType_of_isLiteral h) rfl

/-- A literal text. -/
theorem string (value : String) : Readable letters (.literal (quoteText value)) := by
  refine .of_operand fun frames level hlast => .quoted ?_
  rw [step?, hlast, Option.isNone_none, if_pos rfl]
  rfl

section

variable (h : Readable letters expr)
include h

/-- At the start of a bracket, the whole type is read. -/
theorem type (frames : List Frame) : ∃ level,
    Reads letters expr.text.toList (.type frames .empty) (.type frames level) ∧
      level.type? = some expr.flat := by
  obtain ⟨level, hreads, hmembers⟩ := h.members frames []
  refine ⟨level, hreads, ?_⟩
  rw [Level.type?, hmembers, List.nil_append, Option.map_some,
    (TypeExpr.isFlat_flat expr).join_spread]

/-- With parentheses where they are needed, every type is read as one part. -/
theorem grouped (needed : Bool) (hneeded : needed = false → expr.isComposite = false) :
    ReadsAsOperand letters (TypedRoutes.grouped needed expr.text).toList expr := by
  cases needed with
  | false => exact h.operand (hneeded rfl)
  | true =>
    intro frames level hlast
    obtain ⟨inside, hreads, htype⟩ := h.type (.group level :: frames)
    have hclose : step? (.type (.group level :: frames) inside) (.mark ')') =
        some (.type frames (level.take expr.flat)) := step?_close htype (by decide)
    have hopen : step? (.type frames level) (.mark '(') =
        some (.type (.group level :: frames) .empty) := by
      simp only [step?, hlast, open?, if_true]
    have htext : (TypedRoutes.grouped true expr.text).toList =
        '(' :: (expr.text.toList ++ [')']) := by
      simp [TypedRoutes.grouped]
    rw [htext]
    exact .mark (by decide) hopen (hreads.append (.lastMark (by decide) hclose)
      (ends_mark (by decide)))

/-- An array is an operand whatever its element is. -/
theorem array : Readable letters (.array expr) := by
  refine .of_operand fun frames level hlast => ?_
  have htext : (TypeExpr.array expr).text.toList =
      (TypedRoutes.grouped expr.isComposite expr.text).toList ++ ['[', ']'] := by
    simp [TypeExpr.text]
  rw [htext]
  exact (h.grouped _ id frames level hlast).append
    (.mark (by decide) rfl (.lastMark (by decide) rfl)) (ends_mark (by decide))

end

/-- Types with commas between them, up to the end of the bracket. -/
theorem listed (frame : List TypeExpr → Frame) (closed : List TypeExpr → State) (hmark : c ∈ marks)
    (hc : c ∉ ['&', '|', '[', '<'])
    (hcomma : ∀ read type, (frame read).close ',' frames type =
      some (.type (frame (read ++ [type]) :: frames) .empty))
    (hclose : ∀ read type, (frame read).close c frames type = some (closed (read ++ [type])))
    (hne : types ≠ []) (h : ∀ type ∈ types, Readable letters type) :
    Reads letters ((separated ", " (types.map TypeExpr.text)).toList ++ [c])
      (.type (frame [] :: frames) .empty) (closed (types.map TypeExpr.flat)) := by
  obtain ⟨state, hreads, -, hlast⟩ := Reads.separated ", "
    (fun read => .type (frame (read.map TypeExpr.flat) :: frames) .empty)
    (fun read state => step? state (.mark ',') =
        some (.type (frame (read.map TypeExpr.flat) :: frames) .empty) ∧
      step? state (.mark c) = some (closed (read.map TypeExpr.flat)))
    (by decide) (.inl rfl) (fun _ _ hdone => hdone.1) [] hne fun type htype read => by
      obtain ⟨level, hreads, hread⟩ :=
        (h type htype).type (frame (read.map TypeExpr.flat) :: frames)
      refine ⟨_, hreads, ?_⟩
      rw [step?_close hread (by decide), step?_close hread hc, hcomma, hclose, List.map_append]
      exact ⟨rfl, rfl⟩
  exact hreads.append (.lastMark hmark hlast) (ends_mark hmark)

/-- A tuple of types that can be read. -/
theorem tuple (h : ∀ type ∈ types, Readable letters type) : Readable letters (.tuple types) := by
  refine .of_operand fun frames level hlast => ?_
  have hopen : step? (.type frames level) (.mark '[') =
      some (.type (.tuple level [] :: frames) .empty) := by
    simp [step?, hlast, open?]
  have htext : (TypeExpr.tuple types).text.toList =
      '[' :: ((separated ", " (types.map TypeExpr.text)).toList ++ [']']) := by
    simp [TypeExpr.text, TypeExpr.texts_eq_map]
  rw [htext, TypeExpr.flat, TypeExpr.flats_eq_map]
  refine .mark (by decide) hopen ?_
  cases types with
  | nil => exact .lastMark (by decide) rfl
  | cons type types =>
    exact listed (.tuple level) (fun read => .type frames (level.take (.tuple read))) (by decide)
      (by decide) (fun _ _ => rfl) (fun _ _ => rfl) (List.cons_ne_nil _ _) h

/-- A name with type arguments. -/
theorem reference {name : String} (hname : isTypeName letters name = true) (hne : types ≠ [])
    (h : ∀ type ∈ types, Readable letters type) : Readable letters (.reference name types) := by
  refine .of_operand fun frames level hlast => ?_
  have hword : step? (.type frames level) (.word name) =
      some (.type frames (level.take (.named name))) := by
    rw [step?, hlast, Option.isNone_none, if_pos rfl, wordType_of_isTypeName hname]
  have htext : (TypeExpr.reference name types).text.toList =
      name.toList ++ '<' :: ((separated ", " (types.map TypeExpr.text)).toList ++ ['>']) := by
    obtain ⟨type, types, rfl⟩ := List.exists_cons_of_ne_nil hne
    simp [TypeExpr.text, TypeExpr.texts_eq_map]
  rw [htext, TypeExpr.flat, TypeExpr.flats_eq_map]
  refine (Reads.word (isWord_of_isTypeName hname) hword).append (.mark (by decide) rfl ?_)
    (ends_mark (by decide))
  exact listed (.reference (level.take (.named name)) name)
    (fun read => .type frames (level.take (.reference name read))) (by decide) (by decide)
    (fun _ _ => rfl) (fun _ _ => rfl) hne h

/-! ### Members of objects -/

/-- The text of a key is read as the key, quoted or not. -/
theorem key (name : String) (outer : Level) (members : List TypeMember) :
    Reads letters (keyText name).toList (.key frames outer members)
      (.colon frames outer members name false) := by
  rw [keyText]
  split
  · exact .word (isWord_of_isIdentifier ‹_›) rfl
  · exact .quoted rfl

/-- A member is read with its key, its question mark and its type. -/
theorem objectMember {member : TypeMember} (h : Readable letters member.type) (outer : Level)
    (members : List TypeMember) : ∃ state,
    Reads letters member.text.toList (.key frames outer members) state ∧
      step? state (.mark ';') = some (.key frames outer (members ++ [member.flat])) ∧
      step? state (.mark '\x7d') =
        some (.type frames (outer.take (.object (members ++ [member.flat])))) := by
  obtain ⟨name, optional, type⟩ := member
  obtain ⟨level, hreads, htype⟩ := h.type (.object outer members name optional :: frames)
  have hcolon : Reads letters (':' :: ' ' :: type.text.toList)
      (.colon frames outer members name optional)
      (.type (.object outer members name optional :: frames) level) :=
    .mark (by decide) rfl hreads.space
  have hkey : Reads letters (keyText name).toList (.key frames outer members) _ :=
    key name outer members
  refine ⟨.type (.object outer members name optional :: frames) level, ?_,
    (step?_close htype (by decide)).trans rfl, (step?_close htype (by decide)).trans rfl⟩
  cases optional with
  | false =>
    have htext : (TypeMember.mk name false type).text.toList =
        (keyText name).toList ++ ':' :: ' ' :: type.text.toList := by
      simp [TypeMember.text]
    rw [htext]
    exact hkey.append hcolon (ends_mark (by decide))
  | true =>
    have htext : (TypeMember.mk name true type).text.toList =
        (keyText name).toList ++ '?' :: ':' :: ' ' :: type.text.toList := by
      simp [TypeMember.text]
    rw [htext]
    exact hkey.append (.mark (by decide) rfl hcolon) (ends_mark (by decide))

/-- An object type with members that can be read. -/
theorem object {members : List TypeMember} (h : ∀ member ∈ members, Readable letters member.type) :
    Readable letters (.object members) := by
  refine .of_operand fun frames level hlast => ?_
  have hopen : step? (.type frames level) (.mark '\x7b') = some (.key frames level []) := by
    simp [step?, hlast, open?]
  rw [TypeExpr.flat, TypeMember.flats_eq_map]
  cases members with
  | nil =>
    have htext : (TypeExpr.object []).text.toList = ['\x7b', '\x7d'] := by simp [TypeExpr.text]
    rw [htext]
    exact .mark (by decide) hopen (.lastMark (by decide) rfl)
  | cons member members =>
    have htext : (TypeExpr.object (member :: members)).text.toList = '\x7b' :: ' ' ::
        ((separated "; " ((member :: members).map TypeMember.text)).toList ++ [' ', '\x7d']) := by
      simp [TypeExpr.text, TypeMember.texts_eq_map]
    obtain ⟨state, hreads, -, hlast⟩ := Reads.separated "; "
      (fun read => .key frames level (read.map TypeMember.flat))
      (fun read state => step? state (.mark ';') =
        some (.key frames level (read.map TypeMember.flat)) ∧
        step? state (.mark '\x7d') =
          some (.type frames (level.take (.object (read.map TypeMember.flat)))))
      (by decide) (.inl rfl) (fun _ _ hdone => hdone.1) [] (List.cons_ne_nil member members)
      fun member hmember read => by
        rw [List.map_append]
        exact (h member hmember).objectMember level (read.map TypeMember.flat)
    rw [htext]
    exact .mark (by decide) hopen
      (hreads.append (Reads.lastMark (by decide) hlast).space ends_space).space

/-! ### Unions and intersections -/

/-- A union of types that can be read. -/
theorem union (hne : types ≠ []) (h : ∀ type ∈ types, Readable letters type) :
    Readable letters (.union types) := by
  refine ⟨nofun, nofun, fun frames members => ?_⟩
  obtain ⟨_, hreads, next, rfl, hnext⟩ := Reads.separated " | "
    (fun read => .type frames
      ⟨members ++ (read.map TypeExpr.flat).flatMap Junction.union.spread, [], none⟩)
    (fun read state => ∃ next, state = .type frames next ∧ next.members? =
      some (members ++ (read.map TypeExpr.flat).flatMap Junction.union.spread))
    (by decide) (.inr rfl) (fun _ _ ⟨_, hstate, hnext⟩ => hstate ▸ step?_bar hnext) [] hne
    fun type htype read => by
      obtain ⟨next, hreads, hnext⟩ := (h type htype).members frames
        (members ++ (read.map TypeExpr.flat).flatMap Junction.union.spread)
      exact ⟨_, hreads, next, rfl, by simpa using hnext⟩
  refine ⟨next, ?_, ?_⟩
  · rw [TypeExpr.text, TypeExpr.texts_eq_map]
    simpa using hreads
  · rw [hnext]
    exact congrArg (some <| members ++ ·) (TypeExpr.spread_flat .union types).symm

/-- Inside an intersection every type is read as what it adds, unions in parentheses. -/
theorem groupedParts {type : TypeExpr} (h : Readable letters type) :
    ReadsAsParts letters (TypedRoutes.grouped type.isUnion type.text).toList type := by
  cases hunion : type.isUnion with
  | false => exact h.parts hunion
  | true => exact (h.grouped true nofun).parts

/-- An intersection of types that can be read. -/
theorem intersection (hne : types ≠ []) (h : ∀ type ∈ types, Readable letters type) :
    Readable letters (.intersection types) := by
  have hparts : ReadsAsParts letters (TypeExpr.intersection types).text.toList
      (.intersection types) := by
    rintro frames ⟨members, parts, _⟩ rfl
    obtain ⟨_, hreads, next, rfl, hmembers, hnext⟩ := Reads.separated " & "
      (fun read => .type frames
        ⟨members, parts ++ (read.map TypeExpr.flat).flatMap Junction.intersection.spread, none⟩)
      (fun read state => ∃ next, state = .type frames next ∧ next.members = members ∧ next.parts? =
        some (parts ++ (read.map TypeExpr.flat).flatMap Junction.intersection.spread))
      (by decide) (.inr rfl)
      (fun _ _ ⟨_, hstate, hmembers, hnext⟩ => hmembers ▸ hstate ▸ step?_ampersand hnext) [] hne
      fun type htype read => by
        obtain ⟨next, hreads, hmembers, hnext⟩ := (h type htype).groupedParts frames
          ⟨members, parts ++ (read.map TypeExpr.flat).flatMap
            Junction.intersection.spread, none⟩ rfl
        exact ⟨_, hreads, next, rfl, hmembers, by simpa using hnext⟩
    refine ⟨next, ?_, hmembers, ?_⟩
    · rw [TypeExpr.text, TypeExpr.partTexts_eq_map]
      simpa using hreads
    · rw [hnext]
      exact congrArg (some <| parts ++ ·) (TypeExpr.spread_flat .intersection types).symm
  exact ⟨nofun, fun _ => hparts, hparts.members⟩

/-- The whole of a text is read as the flattened form of its type. -/
theorem typeOf?_text (h : Readable letters expr) : typeOf? letters expr.text = some expr.flat := by
  obtain ⟨level, hreads, htype⟩ := h.type []
  have hread := hreads [] nofun
  rw [List.append_nil] at hread
  rw [typeOf?, hread, read?]
  exact htype

end Readable

end TypeText

/-! ## Types and their texts -/

/-- Several types are written as the single types. -/
theorem Ty.expressions_eq_map (types : List Ty) :
    Ty.expressions types = types.map Ty.expression := by
  induction types with
  | nil => rfl
  | cons type rest ih => rw [Ty.expressions, ih, List.map_cons]

/-- The types of members are those of the properties, written. -/
theorem TyProperty.map_type_members (properties : List TyProperty) :
    (TyProperty.members properties).map TypeMember.type =
      Ty.expressions (properties.map TyProperty.type) := by
  induction properties with
  | nil => rfl
  | cons property rest ih =>
    cases property
    rw [TyProperty.members, List.map_cons, ih, List.map_cons, Ty.expressions]
    rfl

/-- Properties have an internal type among them exactly if their types have. -/
theorem TyProperty.anyInternal_eq_types (properties : List TyProperty) :
    TyProperty.anyInternal properties = Ty.anyInternal (properties.map TyProperty.type) := by
  induction properties with
  | nil => rfl
  | cons property rest ih =>
    cases property
    rw [TyProperty.anyInternal, ih]
    rfl

namespace Ty

open TypeText

variable {letters : Grammar.Alphabet} {type other : Ty} {types : List Ty}

/-- No internal type is among types that have none. -/
theorem anyInternal_eq_false (h : ∀ type ∈ types, type.hasInternal = false) :
    anyInternal types = false := by
  induction types with
  | nil => rfl
  | cons type rest ih =>
    obtain ⟨htype, hrest⟩ := List.forall_mem_cons.mp h
    rw [anyInternal, htype, ih hrest]
    rfl

/-- Whether the type itself can be told from its text, if its parts can: it does not belong to the
checker, it is no empty union and no empty intersection, and its alias and the name it refers to are
identifiers, but no names of built-in types or of literals. -/
def ownLegible (letters : Grammar.Alphabet) (type : Ty) : Bool :=
  type.aliasName.all (isTypeName letters) &&
    match type.kind with
    | .reference name => isTypeName letters name
    | .union [] | .intersection [] | .internal _ => false
    | _ => true

/-- The type can be told from its text: at every depth it can. -/
inductive Legible (letters : Grammar.Alphabet) : Ty → Prop
  | intro {type : Ty} (own : type.ownLegible letters = true)
      (parts : ∀ part ∈ type.parts, Legible letters part) : Legible letters type

namespace Legible

/-- A legible type is written. -/
theorem hasInternal (h : type.Legible letters) : type.hasInternal = false := by
  induction h with
  | @intro type own parts ih =>
    obtain ⟨kind, aliasName⟩ := type
    cases kind with
    | object properties =>
      rw [Ty.hasInternal, TyKind.hasInternal, TyProperty.anyInternal_eq_types]
      exact anyInternal_eq_false ih
    | tuple types | union types | intersection types => exact anyInternal_eq_false ih
    | array element | promise element | record element => exact ih element List.mem_cons_self
    | internal name => simp [ownLegible, kind] at own
    | _ => rfl

/-- From the text of a legible type the type is read. -/
theorem readable (h : type.Legible letters) : Readable letters type.expression := by
  induction h with
  | @intro type own parts ih =>
    obtain ⟨kind, aliasName⟩ := type
    obtain ⟨halias, hkind⟩ := Bool.and_eq_true_iff.mp own
    cases aliasName with
    | some name => exact .named halias
    | none =>
      have hlisted : ∀ expr ∈ expressions (Ty.mk kind none).parts, Readable letters expr := by
        rw [expressions_eq_map]
        exact List.forall_mem_map.mpr ih
      cases kind with
      | string | number | boolean | bigInt | null | undefined | void | any | unknown | never =>
        exact .keyword (by decide)
      | date | function =>
        exact .named (isTypeName_of_isIdentifier (by decide) (by decide) (by decide))
      | literalString value => exact .string value
      | literalNumber value =>
        obtain ⟨hword, hliteral⟩ := numberLiteral_spec letters value
        exact .literal hword hliteral
      | literalBoolean value =>
        cases value <;> exact .literal (isWord_of_isIdentifier (by decide)) (by decide)
      | array element => exact .array (ih element List.mem_cons_self)
      | tuple elements => exact .tuple hlisted
      | object properties =>
        refine .object (List.forall_mem_map.mp ?_)
        rw [TyProperty.map_type_members]
        exact hlisted
      -- a record is written as the generic type that it stands for
      | record value =>
        exact .reference (isTypeName_of_isIdentifier (by decide) (by decide) (by decide))
          (List.cons_ne_nil _ _) (List.forall_mem_cons.mpr ⟨.keyword (by decide), hlisted⟩)
      | promise inner =>
        exact .reference (isTypeName_of_isIdentifier (by decide) (by decide) (by decide))
          (List.cons_ne_nil _ _) hlisted
      | reference name => exact .named hkind
      | union members =>
        refine .union ?_ hlisted
        cases members with
        | nil => cases hkind
        | cons member rest => exact List.cons_ne_nil _ _
      | intersection members =>
        refine .intersection ?_ hlisted
        cases members with
        | nil => cases hkind
        | cons member rest => exact List.cons_ne_nil _ _
      | internal name => cases hkind

end Legible

/-- Legible types are written, and if they are written with the same text they are the same up to
flattening: nested unions as one union, nested intersections as one intersection, and those of one
type as this type. So if they are flattened as they are, the text tells all of them. -/
theorem text_faithful (h : type.Legible letters) (hother : other.Legible letters) :
    ∃ expr expr', type.written? = some expr ∧ other.written? = some expr' ∧
      (expr.text = expr'.text →
        expr.flat = expr'.flat ∧ (expr.IsFlat → expr'.IsFlat → expr = expr')) := by
  refine ⟨type.expression, other.expression, ?_, ?_, fun htext => ?_⟩
  · rw [written?, h.hasInternal, if_neg Bool.false_ne_true]
  · rw [written?, hother.hasInternal, if_neg Bool.false_ne_true]
  · have hflat : type.expression.flat = other.expression.flat := by
      have hread := h.readable.typeOf?_text
      rw [htext, hother.readable.typeOf?_text] at hread
      exact (Option.some.inj hread).symm
    refine ⟨hflat, fun htype hsecond => ?_⟩
    rw [← htype.flat_eq, hflat, hsecond.flat_eq]

/-- Users with a name that is a quote, in an intersection. -/
def quotedUser : Ty :=
  (TyKind.intersection [(TyKind.reference "User").type,
    (TyKind.object [.mk "first-name" (TyKind.literalString "\"").type true none]).type]).type

/-- An array of a union in which the last members are in a union of their own. -/
def lastGrouped : Ty :=
  (TyKind.array (TyKind.union [TyKind.string.type,
    (TyKind.union [TyKind.null.type, quotedUser]).type]).type).type

/-- The same array with the first members in a union, and the last one in an intersection, of their
own. -/
def firstGrouped : Ty :=
  (TyKind.array (TyKind.union [(TyKind.union [TyKind.string.type, TyKind.null.type]).type,
    (TyKind.intersection [quotedUser]).type]).type).type

theorem text_faithful_grouped :
    lastGrouped.Legible ⟨fun _ => false, fun _ => false⟩ ∧
      firstGrouped.Legible ⟨fun _ => false, fun _ => false⟩ ∧
      lastGrouped.expression.text =
        "(string | null | User & \x7b \"first-name\"?: \"\\\"\" \x7d)[]" ∧
      firstGrouped.expression.text = lastGrouped.expression.text ∧
      lastGrouped.expression.flat = firstGrouped.expression.flat := by
  have hpair {a b : Ty} (ha : a.Legible ⟨fun _ => false, fun _ => false⟩)
      (hb : b.Legible ⟨fun _ => false, fun _ => false⟩) :
      ∀ part ∈ [a, b], part.Legible ⟨fun _ => false, fun _ => false⟩ :=
    List.forall_mem_cons.mpr ⟨ha, List.forall_mem_singleton.mpr hb⟩
  have huser : quotedUser.Legible ⟨fun _ => false, fun _ => false⟩ :=
    .intro (by decide) (hpair (.intro (by decide) nofun)
      (.intro (by decide) (List.forall_mem_singleton.mpr (.intro (by decide) nofun))))
  have hlast : lastGrouped.Legible ⟨fun _ => false, fun _ => false⟩ :=
    .intro (by decide) (List.forall_mem_singleton.mpr (.intro (by decide)
      (hpair (.intro (by decide) nofun)
        (.intro (by decide) (hpair (.intro (by decide) nofun) huser)))))
  have hfirst : firstGrouped.Legible ⟨fun _ => false, fun _ => false⟩ :=
    .intro (by decide) (List.forall_mem_singleton.mpr (.intro (by decide)
      (hpair (.intro (by decide) (hpair (.intro (by decide) nofun) (.intro (by decide) nofun)))
        (.intro (by decide) (List.forall_mem_singleton.mpr huser)))))
  have htext : lastGrouped.expression.text = firstGrouped.expression.text := by decide
  obtain ⟨_, _, hwritten, hother, hflat⟩ := text_faithful hlast hfirst
  cases hwritten
  cases hother
  exact ⟨hlast, hfirst, by decide, htext.symm, (hflat htext).1⟩

end Ty

end TypedRoutes
