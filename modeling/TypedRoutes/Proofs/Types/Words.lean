import TypedRoutes.Proofs.Types.Reader

/-!
# Words of type texts

Names of types, keys that are written bare, and literals without quotes are words, and every word
tells which of them it is: built-in names and named literals are reserved, numbers start with a
digit or a minus sign.
-/

namespace TypedRoutes.TypeText

open Grammar

variable {letters : Alphabet} {name : String}

/-- A name that is made of parts of identifiers is read as one word. -/
theorem isWord_of_isPart {c : Char} {rest : List Char} (hname : name.toList = c :: rest)
    (hc : letters.isPart c = true) (hrest : ∀ d ∈ rest, letters.isPart d = true) :
    IsWord letters name := by
  have hparts : ∀ d ∈ c :: rest, letters.isPart d = true := List.forall_mem_cons.mpr ⟨hc, hrest⟩
  rw [IsWord, hname]
  refine ⟨List.cons_ne_nil _ _, fun d hd => ?_⟩
  rw [isWordPart, hparts d hd, Bool.true_or, Bool.true_or]

/-- An identifier is read as one word. -/
theorem isWord_of_isIdentifier (h : isIdentifier name = true) : IsWord letters name := by
  rw [isIdentifier] at h
  split at h
  · cases h
  · rename_i c rest hname
    rw [Bool.and_eq_true, List.all_eq_true] at h
    refine isWord_of_isPart hname ?_ fun d hd => ?_
    · rw [Alphabet.isPart, isIdentifierPart_of_start h.1, Bool.true_or]
    · rw [Alphabet.isPart, h.2 d hd, Bool.true_or]

/-! ## Names of types -/

/-- A name that a type can be referred to by: an identifier, and not the name of a type that is
built in, nor of a literal. -/
def isTypeName (letters : Alphabet) (name : String) : Bool :=
  match name.toList with
  | [] => false
  | c :: rest => letters.isStart c && rest.all letters.isPart && !builtins.contains name &&
      !literalNames.contains name

/-- The name of a type is read as one word. -/
theorem isWord_of_isTypeName (h : isTypeName letters name = true) : IsWord letters name := by
  rw [isTypeName] at h
  split at h
  · cases h
  · rename_i c rest hname
    simp only [Bool.and_eq_true, List.all_eq_true] at h
    obtain ⟨⟨⟨hc, hrest⟩, -⟩, -⟩ := h
    refine isWord_of_isPart hname ?_ hrest
    rw [Alphabet.isStart, Bool.or_eq_true, Bool.and_eq_true] at hc
    rw [Alphabet.isPart]
    rcases hc with hc | ⟨hforeign, hc⟩
    · rw [isIdentifierPart_of_start hc, Bool.true_or]
    · rw [hforeign, hc, Bool.true_or, Bool.and_self, Bool.or_true]

/-- A name of a type is no word of another kind. -/
theorem wordType_of_isTypeName (h : isTypeName letters name = true) :
    wordType name = .named name := by
  rw [isTypeName] at h
  split at h
  · cases h
  · rename_i c rest hname
    simp only [Bool.and_eq_true, Bool.not_eq_true'] at h
    obtain ⟨⟨⟨hc, -⟩, hbuiltin⟩, hliteral⟩ := h
    have hdigit : c.isDigit = false := by
      by_contra hdigit
      rw [(isStart_digit (Bool.eq_true_of_not_eq_false hdigit)).1] at hc
      cases hc
    have hminus : (c == '-') = false := by
      rw [beq_eq_false_iff_ne]
      rintro rfl
      rw [Alphabet.isStart_of_lt (by decide)] at hc
      exact absurd hc (by decide)
    rw [wordType, hbuiltin, isLiteral, hliteral, hname]
    simp [hdigit, hminus]

/-- Identifiers of ASCII letters are names of types, whichever other letters there are. -/
theorem isTypeName_of_isIdentifier (h : isIdentifier name = true)
    (hbuiltin : builtins.contains name = false) (hliteral : literalNames.contains name = false) :
    isTypeName letters name = true := by
  rw [isTypeName]
  cases hname : name.toList with
  | nil =>
    rw [isIdentifier, hname] at h
    cases h
  | cons c rest =>
    rw [isIdentifier, hname] at h
    obtain ⟨hc, hparts⟩ := Bool.and_eq_true_iff.mp h
    have hrest : rest.all letters.isPart = true := List.all_eq_true.mpr fun d hd => by
      rw [Alphabet.isPart, List.all_eq_true.mp hparts d hd, Bool.true_or]
    change (letters.isStart c && _ && !builtins.contains name && !literalNames.contains name) = true
    rw [Alphabet.isStart, hc, hrest, hbuiltin, hliteral]
    rfl

/-! ## Numbers -/

/-- The characters make up a number without its sign. -/
structure Numeric (cs : List Char) : Prop where
  first : ∃ c rest, cs = c :: rest ∧ c.isDigit = true
  chars : ∀ c ∈ cs, c.isDigit = true ∨ c = '.'

/-- Digits are a numeral. -/
theorem numeric_of_digits {cs : List Char} (hne : cs ≠ []) (h : ∀ c ∈ cs, c.isDigit = true) :
    Numeric cs := by
  obtain ⟨c, rest, rfl⟩ := List.exists_cons_of_ne_nil hne
  exact ⟨⟨c, rest, rfl, h c List.mem_cons_self⟩, fun d hd => .inl (h d hd)⟩

/-- Numbers go on with a point and digits. -/
theorem Numeric.fraction {cs digits : List Char} (h : Numeric cs)
    (hdigits : ∀ c ∈ digits, c.isDigit = true) : Numeric (cs ++ '.' :: digits) := by
  obtain ⟨⟨c, rest, rfl, hc⟩, hchars⟩ := h
  refine ⟨⟨c, _, rfl, hc⟩, List.forall_mem_append.mpr
    ⟨hchars, List.forall_mem_cons.mpr ⟨.inr rfl, ?_⟩⟩⟩
  exact fun d hd => .inl (hdigits d hd)

/-- Digits with a point among, in front of or behind them are a numeral. -/
theorem numeric_positional {digits : List Char} (h : ∀ c ∈ digits, c.isDigit = true)
    (leading : Int) :
    Numeric (Decimal.positional digits leading) := by
  rw [Decimal.positional]
  split
  · have hzero : Numeric ['0'] := numeric_of_digits (by simp) (by simp)
    exact hzero.fraction (List.forall_mem_append.mpr ⟨Json.isDigit_zeros _, h⟩)
  · have hwhole : Numeric (digits.take (leading.toNat + 1) ++
        List.replicate (leading.toNat + 1 - digits.length) '0') := by
      refine numeric_of_digits ?_ (List.forall_mem_append.mpr
        ⟨fun c hc => h c (List.mem_of_mem_take hc), Json.isDigit_zeros _⟩)
      rw [← List.length_pos_iff_ne_nil, List.length_append, List.length_take, List.length_replicate]
      omega
    dsimp only
    split
    · exact hwhole
    · exact hwhole.fraction fun c hc => h c (List.mem_of_mem_drop hc)

/-- The literal of a number without its sign is a numeral. -/
theorem numeric_magnitudeLiteral (b : Decimal.Binary) : Numeric (magnitudeLiteral b) := by
  rw [magnitudeLiteral]
  split
  · exact numeric_of_digits (Json.digital_toDigits _).ne_nil (Json.digital_toDigits _).digits
  · refine numeric_positional (fun c hc => ?_) _
    obtain ⟨zeros, hdigits⟩ := Json.toDigits_eq_significantDigits (b.shortest .up).count
    refine (Json.digital_toDigits (b.shortest .up).count).digits c ?_
    rw [hdigits]
    exact List.mem_append_left _ hc

theorem isWordPart_of_numeric {c : Char} (h : c.isDigit = true ∨ c = '.') :
    isWordPart letters c = true := by
  rcases h with h | rfl
  · rw [isWordPart, Alphabet.isPart, isIdentifierPart, h, Bool.or_true, Bool.true_or, Bool.true_or,
      Bool.true_or]
  · rw [isWordPart, beq_self_eq_true, Bool.or_true, Bool.true_or]

theorem isWordPart_minus : isWordPart letters '-' = true := by
  rw [isWordPart, beq_self_eq_true, Bool.or_true]

/-- Number literals are words, and are known to be literals. -/
theorem numberLiteral_spec (letters : Alphabet) (x : Float) :
    IsWord letters (numberLiteral x) ∧ isLiteral (numberLiteral x) = true := by
  rw [numberLiteral]
  split
  · exact ⟨isWord_of_isIdentifier (by decide), by decide⟩
  split
  · split
    · have hminus : "-Infinity".toList = '-' :: "Infinity".toList := by decide
      have hword : IsWord letters "Infinity" := isWord_of_isIdentifier (by decide)
      refine ⟨?_, by decide⟩
      rw [IsWord, hminus]
      exact ⟨List.cons_ne_nil _ _, List.forall_mem_cons.mpr ⟨isWordPart_minus, hword.2⟩⟩
    · exact ⟨isWord_of_isIdentifier (by decide), by decide⟩
  · have hnumeric := numeric_magnitudeLiteral (Decimal.Binary.ofFloat x)
    obtain ⟨c, rest, hliteral, hc⟩ := hnumeric.first
    have hchars := hnumeric.chars
    rw [IsWord, isLiteral, String.toList_ofList, Decimal.signed]
    split
    · refine ⟨⟨List.cons_ne_nil _ _, List.forall_mem_cons.mpr ⟨?_, ?_⟩⟩, ?_⟩
      · exact isWordPart_minus
      · exact fun d hd => isWordPart_of_numeric (hchars d hd)
      · simp
    · rw [hliteral] at hchars ⊢
      exact ⟨⟨List.cons_ne_nil _ _, fun d hd => isWordPart_of_numeric (hchars d hd)⟩, by simp [hc]⟩

/-! ## Built-in types -/

/-- The names of the built-in types are read as words. -/
theorem isWord_builtin (h : name ∈ builtins) : IsWord letters name := by
  have hidentifier : ∀ name ∈ builtins, isIdentifier name = true := by decide
  exact isWord_of_isIdentifier (hidentifier name h)

/-- The name of a built-in type stands for that type. -/
theorem wordType_builtin (h : name ∈ builtins) : wordType name = .keyword name := by
  rw [wordType, List.contains_iff_mem.mpr h, if_pos rfl]

/-- No literal is the name of a type that is built in. -/
theorem wordType_of_isLiteral (h : isLiteral name = true) : wordType name = .literal name := by
  have hbuiltin : ∀ name ∈ builtins, isLiteral name = false := by decide
  rw [wordType, if_neg, if_pos h]
  rw [List.contains_iff_mem]
  intro hmem
  rw [hbuiltin name hmem] at h
  cases h

end TypedRoutes.TypeText
