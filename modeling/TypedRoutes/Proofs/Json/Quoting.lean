import TypedRoutes.Proofs.Json.Documents

/-!
# Texts of leaves

A quoted string is read as the string, character by character, and the three words are read as what
they stand for.
-/

namespace TypedRoutes.Json

variable {c : Char} {gathered : Gathered}

/-- The escape of a control character gives its code. -/
theorem codeUnit?_control : ∀ n < 32,
    codeUnit? '0' '0' (hexDigit (n / 16)) (hexDigit (n % 16)) = some n := by
  decide

theorem scanString_control (hcontrol : c.toNat < 32) (rest : List Char) :
    scanString gathered ('\\' :: 'u' :: '0' :: '0' :: hexDigit (c.toNat / 16) ::
      hexDigit (c.toNat % 16) :: rest) = scanString (gathered.push c) rest := by
  have hcode := codeUnit?_control c.toNat hcontrol
  have hhigh : isHighSurrogate c.toNat = false := by
    simp [isHighSurrogate]
    omega
  have hlow : isLowSurrogate c.toNat = false := by
    simp [isLowSurrogate]
    omega
  rw [scanString, hcode]
  simp [hhigh, hlow]

theorem scanString_plain (hquote : c ≠ '"') (hescape : c ≠ '\\') (hcontrol : ¬ c.toNat < 32)
    (rest : List Char) : scanString gathered (c :: rest) = scanString (gathered.push c) rest := by
  rw [scanString, if_neg hcontrol]
  all_goals intros; contradiction

/-- The written form of a character is read as the character. -/
theorem scanString_escapeChar (c : Char) (gathered : Gathered) (rest : List Char) :
    scanString gathered (escapeChar c ++ rest) = scanString (gathered.push c) rest := by
  unfold escapeChar
  split_ifs with hquote hslash hback hform hline hreturn htab hcontrol
  · subst hquote
    rfl
  · subst hslash
    rfl
  · subst hback
    rfl
  · subst hform
    rfl
  · subst hline
    rfl
  · subst hreturn
    rfl
  · subst htab
    rfl
  · exact scanString_control hcontrol rest
  · exact scanString_plain hquote hslash hcontrol rest

theorem scanString_flatMap (before cs rest : List Char) :
    scanString (some before) (cs.flatMap escapeChar ++ '"' :: rest) =
      .found (some (String.ofList (before.reverse ++ cs))) rest := by
  induction cs generalizing before with
  | nil => simp [scanString]
  | cons c cs ih =>
    rw [List.flatMap_cons, List.append_assoc, scanString_escapeChar]
    refine (ih (c :: before)).trans ?_
    simp

/-- A quoted string is read as the string. -/
theorem reads_quote (text : String) : Reads (quote text).toList (.string (some text)) := by
  have htoken : scanToken '"' (text.toList.flatMap escapeChar ++ ['"']) =
      (.string (some text), []) := by
    have hscan := scanString_flatMap [] text.toList []
    rw [List.reverse_nil, List.nil_append, String.ofList_toList] at hscan
    simp [scanToken, hscan, stringToken]
  rw [Reads, quote, String.toList_ofList, tokens, if_neg (by decide), htoken, tokens]
  rfl

/-- A word is read as what it stands for. -/
theorem reads_word {cs : List Char} {token : Token} {document : Draft} (c : Char)
    (hblank : isBlank c = false) (htoken : scanToken c cs = (token, []))
    (htakes : (Reader.inside [] .value).take token = .after document) :
    Reads (c :: cs) document := by
  rw [Reads, tokens, if_neg (by simp [hblank]), htoken, tokens]
  exact htakes

theorem reads_null : Reads "null".toList .null :=
  reads_word 'n' rfl rfl rfl

theorem reads_boolean : ∀ value, Reads (booleanText value).toList (.boolean value)
  | true => reads_word 't' rfl rfl rfl
  | false => reads_word 'f' rfl rfl rfl

end TypedRoutes.Json
