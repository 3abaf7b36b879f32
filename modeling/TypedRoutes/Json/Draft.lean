import TypedRoutes.Json.TokenLength

/-!
# Drafts

Reading a JSON text never fails: it gives a draft of the document, as far as the text goes, with a
break where the text goes wrong. What the break means is left to whoever reads the draft, because
a reader meets it only after everything that stands before it. The text is read token by token, a
stack of open arrays and objects holding what is still unfinished.
-/

namespace TypedRoutes.Json

/-- A document as far as it could be read. The key of a member and a string have no text when they
hold a lone surrogate; an array or object without a break is closed. -/
inductive Draft where
  | null
  | boolean (value : Bool)
  | number (value : Numeral)
  | string (text : Option String)
  | array (items : List Draft) (ending : Option Break)
  | object (members : List (Option String × Draft)) (ending : Option Break)
  | broken (verdict : Break)
  deriving Inhabited

/-- An array or object that is still open; what it holds so far stands last first. -/
inductive Frame where
  | array (items : List Draft)
  | object (members : List (Option String × Draft)) (key : Option String)

/-- What may come next. -/
inductive Expected where
  /-- A value. -/
  | value
  /-- A value, or the end of an array that is still empty. -/
  | firstItem
  /-- A key, or the end of an object that is still empty. -/
  | firstKey
  /-- A key. -/
  | key
  /-- The colon behind the key that the innermost object holds. -/
  | colon
  /-- A comma or the end of the innermost array or object. -/
  | separator
  deriving DecidableEq, Repr

/-- A reader in the middle of a document, or behind it. -/
inductive Reader where
  | inside (frames : List Frame) (expected : Expected)
  | after (document : Draft)
  | stopped (document : Draft) (trailing : Option Break)

/-- The start of a document. -/
def Reader.start : Reader := .inside [] .value

/-- Puts a finished value where it belongs. -/
def Reader.place (frames : List Frame) (value : Draft) : Reader :=
  match frames with
  | [] => .after value
  | .array items :: outer => .inside (.array (value :: items) :: outer) .separator
  | .object members key :: outer =>
    .inside (.object ((key, value) :: members) key :: outer) .separator

/-- Closes every open array and object at a break, the innermost one first. -/
def closeFrames (verdict : Break) : List Frame → Draft → Draft
  | [], value => value
  | .array items :: outer, value =>
    closeFrames verdict outer (.array (value :: items).reverse (some verdict))
  | .object members key :: outer, value =>
    closeFrames verdict outer (.object ((key, value) :: members).reverse (some verdict))

/-- The draft of a document that breaks off where a value is wanted. -/
def breakAtValue (frames : List Frame) (verdict : Break) : Draft :=
  closeFrames verdict frames (.broken verdict)

/-- The draft of a document that breaks off between values. -/
def breakBetween (frames : List Frame) (verdict : Break) : Draft :=
  match frames with
  | [] => .broken verdict
  | .array items :: outer => closeFrames verdict outer (.array items.reverse (some verdict))
  | .object members _ :: outer => closeFrames verdict outer (.object members.reverse (some verdict))

/-- A break behind a comma: there should have been no comma where a single member is wanted. -/
def Break.behindComma (verdict : Break) : Break :=
  { verdict with single := .malformed }

/-- The draft of a document that breaks off at the given place. -/
def breakOff (frames : List Frame) (expected : Expected) (verdict : Break) : Draft :=
  match expected with
  | .value | .firstItem | .colon => breakAtValue frames verdict
  | .firstKey | .separator => breakBetween frames verdict
  | .key => breakBetween frames verdict.behindComma

/-- Stops because a token stands where it may not. -/
def Reader.refuse (frames : List Frame) (expected : Expected) : Reader :=
  .stopped (breakOff frames expected (.clear .malformed)) none

/-- The fault of a token where a text is wanted. -/
def Token.unwanted : Token → Fault
  | .null | .boolean _ | .openArray | .openObject => .mismatched
  | .number value => if value.take?.isSome then .mismatched else .malformed
  | .broken _ verdict => verdict.wanted
  | .string _ | .closeArray | .closeObject | .comma | .colon => .malformed

/-- Takes a token where a value is wanted. -/
def Reader.takeValue (frames : List Frame) (expected : Expected) : Token → Reader
  | .null => .place frames .null
  | .boolean value => .place frames (.boolean value)
  | .number value => .place frames (.number value)
  | .string text => .place frames (.string text)
  | .openArray => .inside (.array [] :: frames) .firstItem
  | .openObject => .inside (.object [] none :: frames) .firstKey
  | .broken _ verdict => .stopped (breakAtValue frames verdict) none
  | .closeArray | .closeObject | .comma | .colon => .refuse frames expected

/-- Takes a token where a key is wanted. -/
def Reader.takeKey (frames : List Frame) (expected : Expected) : Token → Reader
  | .string text =>
    match frames with
    | .object members _ :: outer => .inside (.object members text :: outer) .colon
    | _ => .refuse frames expected
  | .broken true verdict => .stopped (breakOff frames expected verdict) none
  | token => .stopped (breakOff frames expected ⟨.malformed, .malformed, token.unwanted⟩) none

/-- Takes the next token. -/
def Reader.take : Reader → Token → Reader
  | .after document, _ => .stopped document (some (.clear .malformed))
  | .stopped document trailing, _ => .stopped document trailing
  | .inside frames .value, token => .takeValue frames .value token
  | .inside frames .firstItem, token =>
    match frames, token with
    | .array items :: outer, .closeArray => .place outer (.array items.reverse none)
    | _, _ => .takeValue frames .firstItem token
  | .inside frames .firstKey, token =>
    match frames, token with
    | .object members _ :: outer, .closeObject => .place outer (.object members.reverse none)
    | _, _ => .takeKey frames .firstKey token
  | .inside frames .key, token => .takeKey frames .key token
  | .inside frames .colon, token =>
    match token with
    | .colon => .inside frames .value
    | _ => .refuse frames .colon
  | .inside frames .separator, token =>
    match frames, token with
    | .array _ :: _, .comma => .inside frames .value
    | .array items :: outer, .closeArray => .place outer (.array items.reverse none)
    | .object _ _ :: _, .comma => .inside frames .key
    | .object members _ :: outer, .closeObject => .place outer (.object members.reverse none)
    | _, _ => .refuse frames .separator

/-- The end of the text: the draft, and what is wrong behind a complete document. -/
def Reader.finish : Reader → Draft × Option Break
  | .after document => (document, none)
  | .stopped document trailing => (document, trailing)
  | .inside frames expected => (breakOff frames expected (.clear .truncated), none)

/-- Reads the rest of a text, blank characters between tokens aside. -/
def Reader.run (reader : Reader) : List Char → Draft × Option Break
  | [] => reader.finish
  | c :: rest =>
    if isBlank c then reader.run rest
    else (reader.take (scanToken c rest).1).run (scanToken c rest).2
termination_by cs => cs.length
decreasing_by
  · simp
  · exact Nat.lt_succ_of_le (scanToken_length c rest)

/-- The draft of a text, and what is wrong behind the document. -/
def Draft.read (text : String) : Draft × Option Break :=
  Reader.start.run text.toList

end TypedRoutes.Json
