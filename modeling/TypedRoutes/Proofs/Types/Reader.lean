import TypedRoutes.Proofs.Grammar.Lexing
import TypedRoutes.Proofs.Json.Containers
import TypedRoutes.Proofs.Types.Flattened
import TypedRoutes.Types.Written

/-!
# Reading type texts

The text of a type is read from left to right, word by word and mark by mark, with a stack of the
brackets that are open. Inside a bracket, ampersands bind tighter than bars, and brackets behind a
type tighter than both. What is read is the type in flattened form, for the text does not tell a
nested union from its members.

The reader is for texts of types; it may read other texts as well.
-/

namespace TypedRoutes.TypeText

open Grammar

/-! ## Words and marks -/

/-- A token of a type text. -/
inductive Token where
  /-- A name, a number, or another word. -/
  | word (text : String)
  /-- A string literal, by what it stands for. -/
  | quoted (value : String)
  | mark (c : Char)

/-- Names go on with letters and digits, numbers with a point as well, and a minus sign belongs to
the number behind it. -/
def isWordPart (letters : Alphabet) (c : Char) : Bool :=
  letters.isPart c || c == '.' || c == '-'

/-- The token that starts with the character `c`, and what stands behind it. -/
def scan (letters : Alphabet) (c : Char) (rest : List Char) : Option (Token × List Char) :=
  if isWordPart letters c then
    some (.word (String.ofList (c :: rest.takeWhile (isWordPart letters))),
      rest.dropWhile (isWordPart letters))
  else if c = '"' then (scanText '"' [] rest).map fun found => (.quoted found.1, found.2)
  else some (.mark c, rest)

/-- The names of the types that are built in. -/
def builtins : List String :=
  ["string", "number", "boolean", "bigint", "null", "undefined", "void", "any", "unknown", "never"]

/-- The names of the literals that are words. -/
def literalNames : List String := ["true", "false", "NaN", "Infinity"]

/-- Whether a word is a literal: one with a name, or a number. -/
def isLiteral (word : String) : Bool :=
  literalNames.contains word || word.toList.head?.any fun c => c.isDigit || c == '-'

/-- The type that a word is by itself. -/
def wordType (word : String) : TypeExpr :=
  if builtins.contains word then .keyword word
  else if isLiteral word then .literal word
  else .named word

/-! ## The reader -/

/-- What is read inside one bracket: the members of the union that are complete, the parts of the
last member that are complete, and the last part, if one is read. -/
structure Level where
  members : List TypeExpr
  parts : List TypeExpr
  last : Option TypeExpr

/-- Nothing is read yet. -/
def Level.empty : Level := ⟨[], [], none⟩

/-- The last part becomes another one. -/
def Level.take (level : Level) (type : TypeExpr) : Level := ⟨level.members, level.parts, some type⟩

/-- The parts of the last member. -/
def Level.parts? (level : Level) : Option (List TypeExpr) :=
  level.last.map fun type => level.parts ++ Junction.intersection.spread type

/-- The members of the union. -/
def Level.members? (level : Level) : Option (List TypeExpr) :=
  level.parts?.map fun parts =>
    level.members ++ Junction.union.spread (Junction.intersection.join parts)

/-- The type that is read. -/
def Level.type? (level : Level) : Option TypeExpr :=
  level.members?.map Junction.union.join

/-- An open bracket, with what is read outside of it and what is complete inside. -/
inductive Frame where
  | group (outer : Level)
  /-- The brackets behind the element of an array. -/
  | array (outer : Level) (element : TypeExpr)
  | tuple (outer : Level) (elements : List TypeExpr)
  | reference (outer : Level) (name : String) (arguments : List TypeExpr)
  /-- An object, and the member of which the type is read. -/
  | object (outer : Level) (members : List TypeMember) (key : String) (optional : Bool)

/-- Where the reader stands. -/
inductive State where
  | type (frames : List Frame) (level : Level)
  /-- In an object, in front of a key. -/
  | key (frames : List Frame) (outer : Level) (members : List TypeMember)
  /-- In an object, behind a key. -/
  | colon (frames : List Frame) (outer : Level) (members : List TypeMember) (key : String)
      (optional : Bool)

/-- A mark inside the innermost bracket, where the type has been read: it ends the bracket or a part
of its content. -/
def Frame.close (c : Char) (frames : List Frame) (type : TypeExpr) : Frame → Option State
  | .group outer => if c = ')' then some (.type frames (outer.take type)) else none
  | .array _ _ => none
  | .tuple outer elements =>
    if c = ',' then some (.type (.tuple outer (elements ++ [type]) :: frames) .empty)
    else if c = ']' then some (.type frames (outer.take (.tuple (elements ++ [type]))))
    else none
  | .reference outer name arguments =>
    if c = ',' then some (.type (.reference outer name (arguments ++ [type]) :: frames) .empty)
    else if c = '>' then some (.type frames (outer.take (.reference name (arguments ++ [type]))))
    else none
  | .object outer members key optional =>
    if c = ';' then some (.key frames outer (members ++ [.mk key optional type]))
    else if c = '\x7d' then
      some (.type frames (outer.take (.object (members ++ [.mk key optional type]))))
    else none

/-- A mark where a type is wanted. -/
def open? (c : Char) (frames : List Frame) (level : Level) : Option State :=
  if c = '(' then some (.type (.group level :: frames) .empty)
  else if c = '[' then some (.type (.tuple level [] :: frames) .empty)
  else if c = '\x7b' then some (.key frames level [])
  else if c = ']' then
    match frames with
    | .array outer element :: frames => some (.type frames (outer.take (.array element)))
    | .tuple outer [] :: frames => some (.type frames (outer.take (.tuple [])))
    | _ => none
  else none

/-- A mark behind a type. -/
def follow? (c : Char) (frames : List Frame) (level : Level) (type : TypeExpr) : Option State :=
  if c = '&' then level.parts?.map fun parts => .type frames ⟨level.members, parts, none⟩
  else if c = '|' then level.members?.map fun members => .type frames ⟨members, [], none⟩
  else if c = '[' then some (.type (.array level type :: frames) .empty)
  else if c = '<' then
    match type with
    | .reference name [] => some (.type (.reference level name [] :: frames) .empty)
    | _ => none
  else
    match frames with
    | [] => none
    | frame :: frames => level.type?.bind fun type => frame.close c frames type

/-- The step of the reader at a token. -/
def step? : State → Token → Option State
  | .type frames level, .word text =>
    if level.last.isNone then some (.type frames (level.take (wordType text))) else none
  | .type frames level, .quoted value =>
    if level.last.isNone then
      some (.type frames (level.take (.literal (quoteText value))))
    else none
  | .type frames level, .mark c =>
    match level.last with
    | none => open? c frames level
    | some type => follow? c frames level type
  | .key frames outer members, .word text => some (.colon frames outer members text false)
  | .key frames outer members, .quoted value => some (.colon frames outer members value false)
  | .key frames outer members, .mark c =>
    if c = '\x7d' then some (.type frames (outer.take (.object members))) else none
  | .colon frames outer members key optional, .mark c =>
    if c = '?' then some (.colon frames outer members key true)
    else if c = ':' then some (.type (.object outer members key optional :: frames) .empty)
    else none
  | .colon _ _ _ _ _, _ => none

/-- The type that is read at the end of a text. -/
def end? : State → Option TypeExpr
  | .type [] level => level.type?
  | _ => none

/-- Reads the rest of a text. -/
def read? (letters : Alphabet) (state : State) : List Char → Option TypeExpr
  | [] => end? state
  | c :: rest =>
    if c = ' ' then read? letters state rest
    else
      match scan letters c rest with
      | none => none
      | some (token, behind) =>
        if behind.length ≤ rest.length then
          (step? state token).bind fun next => read? letters next behind
        else none
termination_by cs => cs.length

/-- The type that a text is the text of, in flattened form. -/
def typeOf? (letters : Alphabet) (text : String) : Option TypeExpr :=
  read? letters (.type [] .empty) text.toList

/-! ## Runs over a text -/

variable {letters : Alphabet} {before middle after : State} {cs more : List Char}

/-- The reader goes from one state to another over a text, if the text does not go on with a
character that is glued to its last word. -/
def Reads (letters : Alphabet) (cs : List Char) (before after : State) : Prop :=
  ∀ rest, Ends (isWordPart letters) rest → read? letters before (cs ++ rest) =
  read? letters after rest

/-- The marks of type texts. -/
def marks : List Char :=
  ['(', ')', '[', ']', '\x7b', '\x7d', '<', '>', ',', ';', ':', '?', '|', '&']

/-- Among the ASCII characters a word is made of parts of identifiers, points and minus signs. -/
theorem isWordPart_of_lt {c : Char} (h : c.toNat < 128) :
    isWordPart letters c = (isIdentifierPart c || c == '.' || c == '-') := by
  rw [isWordPart, Alphabet.isPart_of_lt h]

/-- No mark belongs to a word. -/
theorem isWordPart_mark {c : Char} (h : c ∈ marks) : isWordPart letters c = false := by
  simp only [marks, List.mem_cons, List.not_mem_nil, or_false] at h
  rcases h
    with rfl | rfl | rfl | rfl | rfl | rfl | rfl | rfl | rfl | rfl | rfl | rfl | rfl | rfl <;>
  · rw [isWordPart_of_lt (by decide)]
    decide

theorem isWordPart_space : isWordPart letters ' ' = false := by
  rw [isWordPart_of_lt (by decide)]
  decide

/-- A word ends in front of a mark. -/
theorem ends_mark {c : Char} {cs : List Char} (hc : c ∈ marks) :
    Ends (isWordPart letters) (c :: cs) := by
  rintro _ ⟨⟩
  exact isWordPart_mark hc

theorem ends_space {cs : List Char} : Ends (isWordPart letters) (' ' :: cs) := by
  rintro _ ⟨⟩
  exact isWordPart_space

/-- One step of the reader over one token. -/
theorem read?_of_scan {c : Char} {token : Token} {rest : List Char} (hspace : c ≠ ' ')
    (hscan : scan letters c (cs ++ rest) = some (token, rest))
    (hstep : step? before token = some after) :
    read? letters before (c :: (cs ++ rest)) = read? letters after rest := by
  rw [read?, if_neg hspace, hscan]
  simp only [List.length_append, Nat.le_add_left, if_true, hstep, Option.bind_some]

namespace Reads

/-- Texts that are read one after the other, if the second one starts where a word ends. -/
theorem append (h : Reads letters cs before middle) (hmore : Reads letters more middle after)
    (hends : Ends (isWordPart letters) more) : Reads letters (cs ++ more) before after := by
  intro rest hrest
  have hends : Ends (isWordPart letters) (more ++ rest) := by
    cases more with
    | nil => exact hrest
    | cons c more => exact hends
  rw [List.append_assoc, h _ hends, hmore rest hrest]

/-- A space is passed over. -/
theorem space (h : Reads letters cs before after) : Reads letters (' ' :: cs) before after :=
  fun rest hrest => by rw [List.cons_append, read?, if_pos rfl, h rest hrest]

/-- A mark is glued to nothing. -/
theorem mark {c : Char} (hc : c ∈ marks) (hstep : step? before (.mark c) = some middle)
    (h : Reads letters cs middle after) : Reads letters (c :: cs) before after := by
  intro rest hrest
  have hne : ∀ c ∈ marks, c ≠ ' ' ∧ c ≠ '"' := by simp [marks]
  have hscan : scan letters c ([] ++ (cs ++ rest)) = some (.mark c, cs ++ rest) := by
    rw [scan, isWordPart_mark hc, if_neg Bool.false_ne_true, if_neg (hne c hc).2, List.nil_append]
  rw [List.cons_append, ← List.nil_append (cs ++ rest), read?_of_scan (hne c hc).1 hscan hstep,
    h rest hrest]

/-- The last mark of a text. -/
theorem lastMark {c : Char} (hc : c ∈ marks) (hstep : step? before (.mark c) = some after) :
    Reads letters [c] before after :=
  mark hc hstep fun _ _ => rfl

/-- A quoted text is read as one token. -/
theorem quoted {value : String} (hstep : step? before (.quoted value) = some after) :
    Reads letters (quoteText value).toList before after := by
  intro rest _
  have hscan : scan letters '"' (value.toList.flatMap escapeChar ++ ['"'] ++ rest) =
      some (.quoted value, rest) := by
    have htext := scanText_escapeText value.toList [] rest
    rw [List.reverse_nil, List.nil_append, String.ofList_toList] at htext
    rw [List.append_assoc, List.singleton_append, scan, isWordPart_of_lt (by decide),
      if_neg (by decide), if_pos rfl, htext]
    rfl
  have htext : (quoteText value).toList = '"' :: (value.toList.flatMap escapeChar ++ ['"']) := by
    simp [quoteText, escapeText]
  rw [htext, List.cons_append, read?_of_scan (by decide) hscan hstep]

end Reads

/-- The text is one word. -/
def IsWord (letters : Alphabet) (text : String) : Prop :=
  text.toList ≠ [] ∧ ∀ c ∈ text.toList, isWordPart letters c = true

/-- A word is read as one token. -/
theorem Reads.word {text : String} (h : IsWord letters text)
    (hstep : step? before (.word text) = some after) : Reads letters text.toList before after := by
  obtain ⟨hne, hparts⟩ := h
  cases htext : text.toList with
  | nil => exact absurd htext hne
  | cons c word =>
    rw [htext] at hparts
    obtain ⟨hc, hword⟩ := List.forall_mem_cons.mp hparts
    intro rest hrest
    have hspace : c ≠ ' ' := by
      rintro rfl
      rw [isWordPart_space] at hc
      cases hc
    have hends : rest.takeWhile (isWordPart letters) = [] ∧
        rest.dropWhile (isWordPart letters) = rest := by
      cases rest with
      | nil => exact ⟨rfl, rfl⟩
      | cons d rest =>
        have hd : isWordPart letters d = false := hrest d rfl
        simp [hd]
    have hscan : scan letters c (word ++ rest) = some (.word text, rest) := by
      rw [scan, if_pos hc, List.takeWhile_append_of_pos hword, List.dropWhile_append_of_pos hword,
        hends.1, hends.2, List.append_nil, ← htext, String.ofList_toList]
    rw [List.cons_append, read?_of_scan hspace hscan hstep]

/-! ## Items behind one another -/

/-- Items with a separator between them are read one by one. `ready` is where the reader stands in
front of an item, and `done` tells where it may stand behind one, when some items are read. -/
theorem Reads.separated {α : Type} {text : α → String} {c : Char} (separator : String)
    (ready : List α → State) (done : List α → State → Prop) (hc : c ∈ marks)
    (hseparator : separator.toList = [c, ' '] ∨ separator.toList = [' ', c, ' '])
    (hstep : ∀ read state, done read state → step? state (.mark c) = some (ready read)) :
    ∀ {items : List α} (read : List α), items ≠ [] →
      (∀ item ∈ items, ∀ read, ∃ state,
        Reads letters (text item).toList (ready read) state ∧ done (read ++ [item]) state) →
      ∃ state, Reads letters (TypedRoutes.separated separator (items.map text)).toList
      (ready read) state ∧
        done (read ++ items) state
  | [], _, hnil, _ => absurd rfl hnil
  | [item], read, _, hitem => hitem item List.mem_cons_self read
  | item :: next :: rest, read, _, hitem => by
    obtain ⟨state, hfirst, hdone⟩ := hitem item List.mem_cons_self read
    obtain ⟨last, hrest, hlast⟩ :=
      separated separator ready done hc hseparator hstep (read ++ [item])
      (List.cons_ne_nil next rest) fun item hmem => hitem item (List.mem_cons_of_mem _ hmem)
    have hbehind := mark hc (hstep _ _ hdone) hrest.space
    refine ⟨last, ?_, by simpa using hlast⟩
    rcases hseparator with hseparator | hseparator
    · simpa [Json.toList_separated, hseparator] using hfirst.append hbehind (ends_mark hc)
    · simpa [Json.toList_separated, hseparator] using hfirst.append hbehind.space ends_space

end TypedRoutes.TypeText
