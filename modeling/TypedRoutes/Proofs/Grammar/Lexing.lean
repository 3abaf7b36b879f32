import TypedRoutes.Proofs.Grammar.Literals
import TypedRoutes.Proofs.Json.Tokens

/-!
# Texts and their tokens

A text has certain tokens, whatever stands behind it, as long as what stands behind it is not glued
to the last token. Texts with that property can be put behind one another, with blanks between them.
-/

namespace TypedRoutes.Grammar

variable {letters : Alphabet} {held : Bool} {glue glue' : Char → Bool} {cs more blank : List Char}
  {ts others : List Token}

/-- Nothing follows that is glued to what stands in front of it. -/
def Ends (glue : Char → Bool) (rest : List Char) : Prop :=
  ∀ c ∈ rest.head?, glue c = false

/-- The text starts with a character that is not glued to what stands in front of it. -/
def Starts (glue : Char → Bool) (cs : List Char) : Prop :=
  ∃ c rest, cs = c :: rest ∧ glue c = false

/-- The text has the tokens, whatever stands behind it that is not glued to it. In front of it
stands a held word or none, and no line ends behind a held word. -/
def Lexes (letters : Alphabet) (held : Bool) (glue : Char → Bool) (cs : List Char)
    (ts : List Token) : Prop :=
  ∀ newLine, (held && newLine) = false → ∀ rest, Ends glue rest →
    tokens? letters held newLine (cs ++ rest) = (tokens? letters false false rest).map (ts ++ ·)

/-- A mark that is complete by itself is glued to nothing. -/
def unglued : Char → Bool := fun _ => false

/-- A word goes on with letters and digits. -/
def Alphabet.wordGlue (letters : Alphabet) : Char → Bool := letters.isPart

/-- A number goes on with letters, digits and a point. -/
def Alphabet.numberGlue (letters : Alphabet) (c : Char) : Bool := letters.isPart c || c == '.'

namespace Lexes

/-- Fewer characters are glued to what ends with them. -/
theorem mono (h : Lexes letters held glue cs ts) (hglue : ∀ c, glue' c = false → glue c = false) :
    Lexes letters held glue' cs ts :=
  fun newLine hline rest hrest => h newLine hline rest fun c hc => hglue c (hrest c hc)

/-- One text behind another has the tokens of both, if the second does not go on the last token. -/
theorem append (h : Lexes letters held glue cs ts) (hmore : Lexes letters false glue' more others)
    (hstarts : Starts glue more) : Lexes letters held glue' (cs ++ more) (ts ++ others) := by
  intro newLine hline rest hrest
  obtain ⟨c, tail, rfl, hc⟩ := hstarts
  have hends : Ends glue (c :: tail ++ rest) := by
    rintro _ ⟨⟩
    exact hc
  rw [List.append_assoc, h newLine hline _ hends, hmore false rfl rest hrest, Option.map_map]
  congr 1
  funext behind
  exact (List.append_assoc ts others behind).symm

/-- A space is passed over. -/
theorem behindSpace (h : Lexes letters held glue cs ts) : Lexes letters held glue (' ' :: cs) ts :=
  fun newLine hline rest hrest => by
    rw [List.cons_append, tokens?, if_neg (by decide), if_pos (by decide),
      h newLine hline rest hrest]

/-- Blanks are passed over, line ends too where no held word stands in front of them. -/
theorem behindBlank (h : Lexes letters false glue cs ts)
    (hblank : ∀ c ∈ blank, (isLineEnd c || isSpace c) = true) :
    Lexes letters false glue (blank ++ cs) ts := by
  induction blank with
  | nil => exact h
  | cons c blank ih =>
    obtain ⟨hc, htail⟩ := List.forall_mem_cons.mp hblank
    intro newLine hline rest hrest
    rw [List.cons_append, List.cons_append, tokens?]
    split
    · exact ih htail true rfl rest hrest
    · rename_i hline
      rw [if_pos (by simpa [hline] using hc)]
      exact ih htail newLine rfl rest hrest

/-- The whole of a text has its tokens. -/
theorem whole (h : Lexes letters false glue cs ts) : tokens? letters false false cs = some ts := by
  have hread := h false rfl [] nofun
  rwa [List.append_nil, tokens?, Option.map_some, List.append_nil] at hread

end Lexes

/-! ## Single tokens -/

/-- No ASCII character is foreign. -/
theorem isForeign_of_lt {c : Char} (h : c.toNat < 128) : isForeign c = false := by
  rw [isForeign, decide_eq_false (by omega), Bool.false_and, Bool.false_and]

/-- Below the foreign characters every alphabet starts names alike. -/
theorem Alphabet.isStart_of_lt {c : Char} (h : c.toNat < 128) :
    letters.isStart c = isIdentifierStart c := by
  rw [isStart, isForeign_of_lt h, Bool.false_and, Bool.or_false]

/-- Below the foreign characters every alphabet goes on names alike. -/
theorem Alphabet.isPart_of_lt {c : Char} (h : c.toNat < 128) :
    letters.isPart c = isIdentifierPart c := by
  rw [isPart, isForeign_of_lt h, Bool.false_and, Bool.or_false]

/-- A name starts with no blank. -/
theorem isBlank_of_isIdentifierStart {c : Char} (h : isIdentifierStart c = true) :
    isLineEnd c = false ∧ isSpace c = false := by
  have hsmall : c.toNat < 128 := by
    simp only [isIdentifierStart, Char.isAlpha, Char.isUpper, Char.isLower, Bool.or_eq_true,
      Bool.and_eq_true, decide_eq_true_eq, beq_iff_eq] at h
    rcases h with ((⟨-, hc⟩ | ⟨-, hc⟩) | rfl) | rfl
    · exact Nat.lt_of_le_of_lt (UInt32.le_iff_toNat_le.mp hc) (by decide)
    · exact Nat.lt_of_le_of_lt (UInt32.le_iff_toNat_le.mp hc) (by decide)
    · decide
    · decide
  have hall : ∀ n < 128, isIdentifierStart (Char.ofNat n) = true →
      isLineEnd (Char.ofNat n) = false ∧ isSpace (Char.ofNat n) = false := by decide
  have hc := hall c.toNat hsmall
  rw [Char.ofNat_toNat] at hc
  exact hc h

/-- No name starts with a blank. -/
theorem Alphabet.isBlank_of_isStart {c : Char} (h : letters.isStart c = true) :
    isLineEnd c = false ∧ isSpace c = false := by
  rw [isStart, Bool.or_eq_true] at h
  rcases h with h | h
  · exact isBlank_of_isIdentifierStart h
  · simp only [isForeign, Bool.and_eq_true, Bool.not_eq_true'] at h
    exact ⟨h.1.1.2, h.1.2⟩

/-- Without a line end in front of it, a token is placed alone. -/
theorem placed_of_eq_false {newLine : Bool} {token : Token} (hline : (held && newLine) = false)
    (harrow : (token == .mark .arrow) = false) : placed held newLine token = [token] := by
  rw [placed, harrow, Bool.or_false, Bool.and_comm, hline, if_neg Bool.false_ne_true]

/-- Behind one token the rest is read in the state that the token leaves. -/
theorem tokens?_of_scan {c : Char} {token : Token} {newLine : Bool} {rest : List Char}
    (hscan : scanToken letters c (cs ++ rest) = some (token, rest))
    (hblank : isLineEnd c = false ∧ isSpace c = false) (hline : (held && newLine) = false)
    (harrow : (token == .mark .arrow) = false) :
    tokens? letters held newLine (c :: (cs ++ rest)) =
      (tokens? letters token.isHeld false rest).map (token :: ·) := by
  rw [tokens?, hblank.1, hblank.2, if_neg Bool.false_ne_true, if_neg Bool.false_ne_true, hscan]
  simp only [placed_of_eq_false hline harrow, List.length_append, Nat.le_add_left, if_true]
  rfl

/-- A text that scans as one token has just that token. -/
theorem lexes_of_scan {c : Char} {token : Token}
    (hscan : ∀ rest, Ends glue rest → scanToken letters c (cs ++ rest) = some (token, rest))
    (hblank : isLineEnd c = false ∧ isSpace c = false) (hheld : token.isHeld = false)
    (harrow : (token == .mark .arrow) = false) : Lexes letters held glue (c :: cs) [token] :=
  fun _ hline rest hrest => by
    rw [List.cons_append, tokens?_of_scan (hscan rest hrest) hblank hline harrow, hheld]
    rfl

/-- A mark of which the characters alone decide. -/
theorem lexes_mark {c : Char} {mark : Mark} (hc : c.toNat < 128)
    (hkind : (isIdentifierPart c || isLineEnd c || isSpace c || c == '"' || c == '\x27') = false)
    (hscan : ∀ rest, Ends glue rest → scanMark (c :: (cs ++ rest)) = some (mark, rest))
    (harrow : (Token.mark mark == .mark .arrow) = false) :
    Lexes letters held glue (c :: cs) [.mark mark] := by
  simp only [Bool.or_eq_false_iff, beq_eq_false_iff_ne, isIdentifierPart] at hkind
  obtain ⟨⟨⟨⟨⟨hstart, hdigit⟩, hline⟩, hspace⟩, hquote⟩, hsingle⟩ := hkind
  refine lexes_of_scan (fun rest hrest => ?_) ⟨hline, hspace⟩ rfl harrow
  rw [scanToken, Alphabet.isStart_of_lt hc, hstart, if_neg Bool.false_ne_true, hdigit,
    if_neg Bool.false_ne_true, if_neg (by simp [hquote, hsingle]), hscan rest hrest]
  rfl

/-! ## Words -/

/-- A word reaches up to the first character that is not glued to it. -/
theorem takeWhile_isPart {word rest : List Char} (hword : ∀ c ∈ word, letters.isPart c = true)
    (hrest : Ends letters.wordGlue rest) :
    (word ++ rest).takeWhile letters.isPart = word ∧
      (word ++ rest).dropWhile letters.isPart = rest := by
  induction word with
  | nil =>
    cases rest with
    | nil => exact ⟨rfl, rfl⟩
    | cons c rest =>
      have hc : letters.isPart c = false := hrest c rfl
      simp [hc]
  | cons c word ih =>
    obtain ⟨hc, htail⟩ := List.forall_mem_cons.mp hword
    obtain ⟨htake, hdrop⟩ := ih htail
    simp [hc, htake, hdrop]

/-- A word is scanned as a whole. -/
theorem scanToken_word {c : Char} {word rest : List Char} (hc : letters.isStart c = true)
    (hword : ∀ d ∈ word, letters.isPart d = true) (hrest : Ends letters.wordGlue rest) :
    scanToken letters c (word ++ rest) = some (wordToken (String.ofList (c :: word)), rest) := by
  obtain ⟨htake, hdrop⟩ := takeWhile_isPart hword hrest
  rw [scanToken, if_pos hc, htake, hdrop]

/-- No word is an arrow. -/
theorem wordToken_ne_arrow (text : String) : (wordToken text == .mark .arrow) = false := by
  rw [wordToken]
  split <;> rfl

/-- A word is read in front of its rest, also where a line end must not stand. -/
theorem tokens?_word {c : Char} {word rest : List Char} {newLine : Bool}
    (hc : letters.isStart c = true) (hword : ∀ d ∈ word, letters.isPart d = true)
    (hline : (held && newLine) = false) (hrest : Ends letters.wordGlue rest) :
    tokens? letters held newLine (c :: (word ++ rest)) =
      (tokens? letters (wordToken (String.ofList (c :: word))).isHeld false rest).map
        (wordToken (String.ofList (c :: word)) :: ·) :=
  tokens?_of_scan (scanToken_word hc hword hrest) (Alphabet.isBlank_of_isStart hc) hline
    (wordToken_ne_arrow _)

/-- A name is read as itself. -/
theorem lexes_name {name : String} (h : letters.isName name = true) :
    Lexes letters held letters.wordGlue name.toList [.name name] := by
  rw [Alphabet.isName] at h
  split at h
  · cases h
  · rename_i c word hname
    simp only [Bool.and_eq_true, List.all_eq_true, Option.isNone_iff_eq_none] at h
    obtain ⟨⟨hc, hword⟩, hreserved⟩ := h
    have htoken : wordToken (String.ofList (c :: word)) = .name name := by
      rw [← hname, String.ofList_toList, wordToken, hreserved]
    intro newLine hline rest hrest
    rw [hname, List.cons_append, tokens?_word hc hword hline hrest, htoken]
    rfl

/-- A word of ASCII letters and digits. -/
theorem tokens?_identifier {text : String} {rest : List Char} {newLine : Bool}
    (h : isIdentifier text = true) (hline : (held && newLine) = false)
    (hrest : Ends letters.wordGlue rest) :
    tokens? letters held newLine (text.toList ++ rest) =
      (tokens? letters (wordToken text).isHeld false rest).map (wordToken text :: ·) := by
  rw [isIdentifier] at h
  split at h
  · cases h
  · rename_i c word htext
    rw [Bool.and_eq_true, List.all_eq_true] at h
    have hstart : letters.isStart c = true := by rw [Alphabet.isStart, h.1, Bool.true_or]
    have hpart (d : Char) (hd : d ∈ word) : letters.isPart d = true := by
      rw [Alphabet.isPart, h.2 d hd, Bool.true_or]
    have hread := tokens?_word hstart hpart hline hrest
    rwa [← htext, String.ofList_toList, ← List.cons_append, ← htext] at hread

/-- An identifier is read as a word, be it a keyword or a name. -/
theorem lexes_identifier {text : String} (h : isIdentifier text = true)
    (hheld : (wordToken text).isHeld = false) :
    Lexes letters held letters.wordGlue text.toList [wordToken text] :=
  fun _ hline rest hrest => by
    rw [tokens?_identifier h hline hrest, hheld]
    rfl

/-- Behind a held word no line ends in front of the next token. -/
theorem Lexes.behindHeld (h : Lexes letters true glue cs ts) {text : String}
    (htext : isIdentifier text = true) (hheld : (wordToken text).isHeld = true) :
    Lexes letters held glue (text.toList ++ ' ' :: cs) (wordToken text :: ts) := by
  intro newLine hline rest hrest
  have hspace : Ends letters.wordGlue (' ' :: (cs ++ rest)) := by
    rintro _ ⟨⟩
    exact Alphabet.isPart_of_lt (by decide)
  have hbehind := h.behindSpace false rfl rest hrest
  rw [List.cons_append] at hbehind
  rw [List.append_assoc, List.cons_append, tokens?_identifier htext hline hspace, hheld, hbehind,
    Option.map_map]
  rfl

/-! ## Literals -/

/-- An escaped character is read as the character. -/
theorem scanText_escapeChar (c : Char) (read rest : List Char) :
    scanText '"' read (escapeChar c ++ rest) = scanText '"' (c :: read) rest := by
  unfold escapeChar
  split
  · rfl
  · rfl
  · rfl
  · rfl
  · rfl
  · rename_i hslash hquote hline hreturn htab
    have hplain : ¬(c = '\n' || c = '\r') = true := by
      simp only [Bool.or_eq_true, decide_eq_true_eq, not_or]
      exact ⟨hline, hreturn⟩
    rw [List.singleton_append, scanText, if_neg hquote, if_neg hplain]
    all_goals
      intros
      contradiction

/-- An escaped text is read as the text, up to the closing quote. -/
theorem scanText_escapeText (text read rest : List Char) :
    scanText '"' read (text.flatMap escapeChar ++ '"' :: rest) =
      some (String.ofList (read.reverse ++ text), rest) := by
  induction text generalizing read with
  | nil => simp [scanText]
  | cons c text ih =>
    rw [List.flatMap_cons, List.append_assoc, scanText_escapeChar, ih]
    simp

/-- A quoted text is one literal that stands for the text. -/
theorem lexes_quoteText (text : String) :
    Lexes letters held unglued (quoteText text).toList [.string text] := by
  have htext : (quoteText text).toList = '"' :: (text.toList.flatMap escapeChar ++ ['"']) := by
    simp [quoteText, escapeText]
  rw [htext]
  refine lexes_of_scan (fun rest _ => ?_) (by decide) rfl rfl
  have hscan := scanText_escapeText text.toList [] rest
  rw [List.reverse_nil, List.nil_append, String.ofList_toList] at hscan
  rw [List.append_assoc, List.singleton_append, scanToken, Alphabet.isStart_of_lt (by decide),
    if_neg (by decide), if_neg (by decide), if_pos (by decide), hscan]
  rfl

/-- A digit starts no name and is no blank. -/
theorem isStart_digit {c : Char} (h : c.isDigit = true) : letters.isStart c = false ∧
    isLineEnd c = false ∧ isSpace c = false := by
  have hsmall : c.toNat < 128 := by
    simp only [Char.isDigit, Bool.and_eq_true, decide_eq_true_eq] at h
    exact Nat.lt_of_le_of_lt (UInt32.le_iff_toNat_le.mp h.2) (by decide)
  have hall : ∀ n < 128, (Char.ofNat n).isDigit = true →
      isIdentifierStart (Char.ofNat n) = false ∧ isLineEnd (Char.ofNat n) = false ∧
        isSpace (Char.ofNat n) = false := by decide
  have hc := hall c.toNat hsmall
  rw [Char.ofNat_toNat] at hc
  rw [Alphabet.isStart_of_lt hsmall]
  exact hc h

/-- A number that is scanned in front of whatever is not glued to it. -/
theorem lexes_number {numeral : Json.Numeral} (hdigit : ∃ c more, cs = c :: more ∧ c.isDigit = true)
    (hglue : ∀ c, glue c = false → letters.isPart c = false)
    (hscan : ∀ rest, Ends glue rest → Json.scanMagnitude false (cs ++ rest) = .found numeral rest) :
    Lexes letters held glue cs [.number numeral] := by
  obtain ⟨c, more, rfl, hdigit⟩ := hdigit
  obtain ⟨hstart, hblank⟩ : letters.isStart c = false ∧ _ := isStart_digit hdigit
  refine lexes_of_scan (fun rest hrest => ?_) hblank rfl rfl
  have hpart : rest.head?.any letters.isPart = false := by
    cases rest with
    | nil => rfl
    | cons d rest => exact hglue d (hrest d rfl)
  have hfound := hscan rest hrest
  rw [List.cons_append] at hfound
  rw [scanToken, hstart, if_neg Bool.false_ne_true, if_pos hdigit, scanNumber, hfound]
  simp only [hpart, Bool.false_eq_true, if_false]
  rfl

/-- A character that no word goes on with ends digits, and starts no exponent. -/
theorem endsDigits_of_isPart {c : Char} (h : letters.isPart c = false) :
    c.isDigit = false ∧ c ≠ 'e' ∧ c ≠ 'E' := by
  simp only [Alphabet.isPart, isIdentifierPart, Bool.or_eq_false_iff] at h
  refine ⟨h.1.2, ?_, ?_⟩ <;>
  · rintro rfl
    exact absurd h.1.1 (by decide)

/-- The magnitude of a number is scanned as its numeral. -/
theorem lexes_magnitude {x : Float} (h : x.isFinite = true) : Lexes letters held
    letters.numberGlue (magnitudeLiteral (Decimal.Binary.ofFloat x))
      [.number (literalNumeral x)] := by
  obtain ⟨hscan, -, -⟩ := literalNumeral_spec h
  refine lexes_number (Json.exists_cons_of_scan hscan) (fun c hc => ?_) fun rest hrest => ?_
  · rw [Alphabet.numberGlue, Bool.or_eq_false_iff] at hc
    exact hc.1
  · have hends : Json.EndsNumber rest := by
      intro d hd
      have hglue := hrest d hd
      rw [Alphabet.numberGlue, Bool.or_eq_false_iff, beq_eq_false_iff_ne] at hglue
      obtain ⟨hdigit, hexponent⟩ := endsDigits_of_isPart hglue.1
      exact ⟨hdigit, hglue.2, hexponent⟩
    exact Json.scanMagnitude_append hends hscan

/-- Behind a magnitude with a point another point is a mark of its own. -/
theorem lexes_magnitude_point {x : Float} (h : x.isFinite = true)
    (hchars : ∀ c ∈ magnitudeLiteral (Decimal.Binary.ofFloat x), c.isDigit = true ∨ c = '.')
    (hpoint : '.' ∈ magnitudeLiteral (Decimal.Binary.ofFloat x)) :
    Lexes letters held letters.wordGlue (magnitudeLiteral (Decimal.Binary.ofFloat x))
      [.number (literalNumeral x)] := by
  obtain ⟨hscan, -, -⟩ := literalNumeral_spec h
  refine lexes_number (Json.exists_cons_of_scan hscan) (fun _ hc => hc) fun rest hrest => ?_
  obtain ⟨hnone, -⟩ | ⟨whole, fraction, hliteral, hwhole, hzero, hfraction⟩ :=
    Json.digital_of_scan hscan hchars
  · exact absurd hpoint hnone
  rw [hliteral, Json.scanMagnitude_fraction hwhole hzero hfraction] at hscan
  obtain ⟨hnumeral, -⟩ := Json.Scan.found.inj hscan
  rw [← hnumeral, hliteral, List.append_assoc, List.cons_append]
  exact Json.scanMagnitude_fraction_append hwhole hzero hfraction fun c hc =>
    endsDigits_of_isPart (hrest c hc)

/-- A point behind a magnitude without one is read as part of the number, and so are the characters
behind it, which make none up. -/
theorem tokens?_magnitude_point {x : Float} (h : x.isFinite = true) {newLine : Bool}
    (hchars : ∀ c ∈ magnitudeLiteral (Decimal.Binary.ofFloat x), c.isDigit = true ∨ c = '.')
    (hpoint : '.' ∉ magnitudeLiteral (Decimal.Binary.ofFloat x)) {c : Char}
    (hc : letters.isStart c = true) (rest : List Char) :
    tokens? letters held newLine (magnitudeLiteral (Decimal.Binary.ofFloat x) ++ '.' :: c :: rest) =
      none := by
  obtain ⟨hscan, -, -⟩ := literalNumeral_spec h
  obtain ⟨-, hdigits⟩ | ⟨whole, fraction, hliteral, -⟩ := Json.digital_of_scan hscan hchars
  · obtain ⟨d, more, hmagnitude, hdigit⟩ := Json.exists_cons_of_scan hscan
    obtain ⟨hstart, hline, hspace⟩ : letters.isStart d = false ∧ _ := isStart_digit hdigit
    have hnot : c.isDigit = false := by
      by_contra hdigit
      rw [(isStart_digit (Bool.not_eq_false _ ▸ hdigit)).1] at hc
      cases hc
    obtain ⟨verdict, hbroken⟩ : ∃ verdict, Json.scanMagnitude false _ = .broken verdict :=
      Json.scanMagnitude_point hdigits hnot rest
    rw [hmagnitude, List.cons_append] at hbroken ⊢
    rw [tokens?, hline, hspace, if_neg Bool.false_ne_true, if_neg Bool.false_ne_true, scanToken,
      hstart, if_neg Bool.false_ne_true, if_pos hdigit, scanNumber, hbroken]
    rfl
  · rw [hliteral] at hpoint
    exact absurd (by simp) hpoint

/-- A minus sign stands alone in front of a digit. -/
theorem lexes_minus :
    Lexes letters held (fun c => c == '-' || c == '=') ['-'] [.mark .minus] := by
  refine lexes_mark (by decide) (by decide) (fun rest hrest => ?_) rfl
  cases rest with
  | nil => rfl
  | cons d rest =>
    have hglue := hrest d rfl
    simp only [Bool.or_eq_false_iff, beq_eq_false_iff_ne] at hglue
    simp [scanMark, hglue.1, hglue.2]

/-- A magnitude goes on with no minus sign in front of it. -/
theorem starts_magnitude {x : Float} (h : x.isFinite = true) :
    Starts (fun c => c == '-' || c == '=')
    (magnitudeLiteral (Decimal.Binary.ofFloat x)) := by
  obtain ⟨c, more, hmagnitude, hdigit⟩ := Json.exists_cons_of_scan (literalNumeral_spec h).1
  refine ⟨c, more, hmagnitude, ?_⟩
  simp only [Bool.or_eq_false_iff, beq_eq_false_iff_ne]
  constructor <;>
  · rintro rfl
    exact absurd hdigit (by decide)

/-- The literal of a finite number is read as its numeral, behind a minus sign if it is negative. -/
theorem lexes_numberLiteral {x : Float} (h : x.isFinite = true) :
    Lexes letters held letters.numberGlue (numberLiteral x).toList (numberTokens x) := by
  rw [Json.numberLiteral_of_isFinite h, String.toList_ofList, Decimal.signed, numberTokens]
  cases Decimal.isNegative x with
  | false => exact lexes_magnitude h
  | true => exact lexes_minus.append (lexes_magnitude h) (starts_magnitude h)

/-! ## Punctuation -/

/-- Operators go on with letters, and with the characters that longer operators are made of. -/
def Alphabet.operatorGlue (letters : Alphabet) (c : Char) : Bool :=
  letters.isPart c || c == '=' || c == '>' || c == '+' || c == '?' || c == '.'

/-- A space ends an operator. -/
theorem operatorGlue_space : letters.operatorGlue ' ' = false := by
  rw [Alphabet.operatorGlue, Alphabet.isPart_of_lt (by decide)]
  decide

/-- The marks that are a single character and start no longer one. -/
def singleMarks : List (Char × Mark) :=
  [('(', .openParen), (')', .closeParen), ('[', .openBracket), (']', .closeBracket),
    ('\x7b', .openBrace), ('\x7d', .closeBrace), (',', .comma), (';', .semicolon), (':', .colon)]

/-- A mark of a single character stands alone, whatever follows. -/
theorem lexes_single {c : Char} {mark : Mark} (h : (c, mark) ∈ singleMarks) :
    Lexes letters held unglued [c] [.mark mark] := by
  simp only [singleMarks, List.mem_cons, Prod.mk.injEq, List.not_mem_nil, or_false] at h
  rcases h with h | h | h | h | h | h | h | h | h <;>
  · obtain ⟨rfl, rfl⟩ := h
    exact lexes_mark (by decide) (by decide) (fun _ _ => rfl) rfl

/-- Single marks are glued to no number, and so to no word. -/
theorem numberGlue_single {c : Char} {mark : Mark} (h : (c, mark) ∈ singleMarks) :
    letters.numberGlue c = false := by
  simp only [singleMarks, List.mem_cons, Prod.mk.injEq, List.not_mem_nil, or_false] at h
  rcases h with h | h | h | h | h | h | h | h | h <;>
  · obtain ⟨rfl, rfl⟩ := h
    rw [Alphabet.numberGlue, Alphabet.isPart_of_lt (by decide)]
    rfl

/-- A single mark in front of a text. -/
theorem Lexes.behindMark (h : Lexes letters false glue cs ts) (hne : cs ≠ []) (c : Char)
    (mark : Mark) (hmark : (c, mark) ∈ singleMarks) :
    Lexes letters held glue (c :: cs) (.mark mark :: ts) := by
  obtain ⟨d, tail, rfl⟩ := List.exists_cons_of_ne_nil hne
  exact (lexes_single hmark).append h ⟨d, tail, rfl, rfl⟩

/-- A single mark behind a text. -/
theorem Lexes.beforeMark (h : Lexes letters held letters.numberGlue cs ts) (c : Char) (mark : Mark)
    (hmark : (c, mark) ∈ singleMarks) :
    Lexes letters held unglued (cs ++ [c]) (ts ++ [.mark mark]) :=
  h.append (lexes_single hmark) ⟨c, [], rfl, numberGlue_single hmark⟩

/-- An exclamation mark stands alone unless an equals sign follows. -/
theorem lexes_not : Lexes letters held (· == '=') ['!'] [.mark .not] :=
  lexes_mark (by decide) (by decide) (fun rest hrest => by
    cases rest with
    | nil => rfl
    | cons c rest =>
      have hglue := hrest c rfl
      simp only [beq_eq_false_iff_ne] at hglue
      simp [scanMark, hglue]) rfl

/-- A point stands alone unless a digit or another point follows. -/
theorem lexes_dot : Lexes letters held (fun c => c.isDigit || c == '.') ['.'] [.mark .dot] :=
  lexes_mark (by decide) (by decide) (fun rest hrest => by
    cases rest with
    | nil => rfl
    | cons c rest =>
      have hglue := hrest c rfl
      simp only [Bool.or_eq_false_iff, beq_eq_false_iff_ne] at hglue
      simp [scanMark, hglue.1, hglue.2]) rfl

/-- The marks that operators and declarations are written with. -/
def operatorMarks : List (List Char × Mark) :=
  [(['=', '=', '='], .strictEqual), (['!', '=', '='], .strictNotEqual), (['&', '&'], .and),
    (['|', '|'], .or), (['+'], .plus), (['?'], .question), (['='], .assign), ([':'], .colon)]

/-- A mark of several characters is the longest that fits. -/
theorem lexes_operatorMark {text : List Char} {mark : Mark} (h : (text, mark) ∈ operatorMarks) :
    Lexes letters held letters.operatorGlue text [.mark mark] := by
  simp only [operatorMarks, List.mem_cons, Prod.mk.injEq, List.not_mem_nil, or_false] at h
  rcases h with h | h | h | h | h | h | h | h <;>
  · obtain ⟨rfl, rfl⟩ := h
    refine lexes_mark (by decide) (by decide) (fun rest hrest => ?_) rfl
    cases rest with
    | nil => rfl
    | cons c rest =>
      have hglue := hrest c rfl
      simp only [Alphabet.operatorGlue, Bool.or_eq_false_iff, beq_eq_false_iff_ne] at hglue
      obtain ⟨⟨⟨⟨⟨-, hequal⟩, hgreater⟩, hplus⟩, hquestion⟩, hdot⟩ := hglue
      simp only [List.cons_append, List.nil_append]
      rw [scanMark] <;> simp [*]

/-- The text of an operator is read as the operator. -/
theorem lexes_operator (op : BinaryOp) :
    Lexes letters held letters.operatorGlue op.text.toList [op.token] := by
  cases op with
  | instanceOf =>
    have hword : Lexes letters held letters.wordGlue "instanceof".toList _ :=
      lexes_identifier (by decide) (by decide)
    exact hword.mono fun c hc => by
      simp only [Alphabet.operatorGlue, Bool.or_eq_false_iff] at hc
      exact hc.1.1.1.1.1
  | _ => exact lexes_operatorMark (by decide)

/-- An operator with a space on either side, in front of a text. -/
theorem Lexes.behindSpaced {text : List Char} {token : Token}
    (h : Lexes letters false glue cs ts)
    (htext : Lexes letters held letters.operatorGlue text [token]) :
    Lexes letters held glue (' ' :: (text ++ ' ' :: cs)) (token :: ts) :=
  (htext.append h.behindSpace ⟨' ', cs, rfl, operatorGlue_space⟩).behindSpace

/-- The arrow stands on the line of the parenthesis in front of it. -/
theorem Lexes.behindArrow (h : Lexes letters false glue cs ts) :
    Lexes letters held glue (')' :: ' ' :: '=' :: '>' :: ' ' :: cs)
      (.mark .closeParen :: .mark .arrow :: ts) := by
  have harrow (rest : List Char) : scanToken letters '=' ('>' :: rest) =
      some (.mark .arrow, rest) := by
    rw [scanToken, Alphabet.isStart_of_lt (by decide)]
    rfl
  intro newLine hline rest hrest
  have hclose : Lexes letters held unglued [')'] [.mark .closeParen] := lexes_single (by decide)
  have hbehind := h.behindSpace false rfl rest hrest
  rw [List.cons_append] at hbehind
  rw [← List.singleton_append, List.append_assoc, hclose newLine hline _ (fun _ _ => rfl)]
  simp only [List.cons_append]
  rw [tokens?, if_neg (by decide), if_pos (by decide), tokens?, if_neg (by decide),
    if_neg (by decide), harrow]
  simp only [placed, Token.isHeld, hbehind, List.length_cons, Nat.le_add_right, if_true,
    Bool.false_and, Bool.false_eq_true, if_false, Option.map_map]
  rfl

/-- The key of an entry and its colon. The colon stands on the line of the key. -/
theorem lexes_key (key : String) :
    Lexes letters held unglued ((keyText key).toList ++ [':']) [keyToken key, .mark .colon] := by
  have hcolon (held : Bool) : Lexes letters held unglued [':'] [.mark .colon] :=
    lexes_single (by decide)
  rw [keyText, keyToken]
  split
  · rename_i hkey
    intro newLine hline rest hrest
    have hends : Ends letters.wordGlue (':' :: rest) := by
      rintro _ ⟨⟩
      exact Alphabet.isPart_of_lt (by decide)
    have hbehind := hcolon (wordToken key).isHeld false (Bool.and_false _) rest hrest
    rw [List.singleton_append] at hbehind
    rw [List.append_assoc, List.singleton_append, tokens?_identifier hkey hline hends, hbehind,
      Option.map_map]
    rfl
  · exact (lexes_quoteText key).append (hcolon false) ⟨':', [], rfl, rfl⟩

end TypedRoutes.Grammar
