import TypedRoutes.Json.Draft
import Mathlib.Data.List.TakeWhile

/-!
# Tokens of a text

Reading a text is scanning all its tokens and taking them one after the other. A token without a
break does not depend on what stands behind it, except that a number ends only where no more of a
number follows.
-/

namespace TypedRoutes.Json

/-- All tokens of a text. -/
def tokens : List Char → List Token
  | [] => []
  | c :: rest =>
    if isBlank c then tokens rest
    else (scanToken c rest).1 :: tokens (scanToken c rest).2
termination_by cs => cs.length
decreasing_by
  · simp
  · exact Nat.lt_succ_of_le (scanToken_length c rest)

/-- Takes tokens one after the other. -/
def Reader.takeAll (reader : Reader) (tokens : List Token) : Reader :=
  tokens.foldl Reader.take reader

/-- Reading a text is taking its tokens. -/
theorem Reader.run_eq (reader : Reader) (cs : List Char) :
    reader.run cs = (reader.takeAll (tokens cs)).finish := by
  fun_induction tokens cs generalizing reader with
  | case1 => rw [run, takeAll, List.foldl_nil]
  | case2 c rest hblank ih => rw [run, if_pos hblank, ih]
  | case3 c rest hblank ih => rw [run, if_neg hblank, ih, takeAll, takeAll, List.foldl_cons]

/-- No more of a number follows. -/
def EndsNumber (rest : List Char) : Prop :=
  ∀ c ∈ rest.head?, c.isDigit = false ∧ c ≠ '.' ∧ c ≠ 'e' ∧ c ≠ 'E'

variable {cs rest more : List Char}

/-- A string ends at its quote, whatever follows. -/
theorem scanString_append {gathered : Gathered} {text : Option String}
    (h : scanString gathered cs = .found text rest) (more : List Char) :
    scanString gathered (cs ++ more) = .found text (rest ++ more) := by
  fun_induction scanString gathered cs
  case case11 a b c d low hcode hhigh first others hlast hpair hescape ih =>
    -- What follows the first half of a pair is no escape, with or without more behind it.
    have hnone (tail : List Char) (hfirst : first = '\\') : others ++ more ≠ 'u' :: tail := by
      cases others with
      | nil => exact (hlast hfirst rfl).elim
      | cons next others =>
        intro htail
        exact hescape others hfirst (by rw [(List.cons.inj htail).1])
    rw [← ih h]
    simp only [List.cons_append, scanString, hcode, hhigh, if_true]
    split <;> simp_all
  case case18 c others hquote hlast hlong hshort hescape hcontrol ih =>
    have hplain : c ≠ '\\' := by
      intro hc
      cases others with
      | nil => exact hlast hc rfl
      | cons next others => exact hescape next others hc rfl
    rw [List.cons_append, scanString, if_neg hcontrol]
    · exact ih h
    · exact hquote
    · exact fun hc => absurd hc hplain
    · exact fun _ _ _ _ _ hc => absurd hc hplain
    · exact fun _ hc => absurd hc hplain
    · exact fun _ _ hc => absurd hc hplain
  all_goals simp_all [scanString]

/-- A word is found whatever follows. -/
theorem scanWord_append {expected : List Char} (h : scanWord expected cs = (none, rest))
    (more : List Char) : scanWord expected (cs ++ more) = (none, rest ++ more) := by
  fun_induction scanWord expected cs <;> simp_all [scanWord]

/-- Digits end where a number ends. -/
theorem takeWhile_isDigit_append (hmore : EndsNumber more) (cs : List Char) :
    (cs ++ more).takeWhile Char.isDigit = cs.takeWhile Char.isDigit ∧
      (cs ++ more).dropWhile Char.isDigit = cs.dropWhile Char.isDigit ++ more := by
  induction cs with
  | nil =>
    cases more with
    | nil => simp
    | cons c more =>
      have hdigit := (hmore c rfl).1
      simp [hdigit]
  | cons c cs ih => cases hdigit : c.isDigit <;> simp [hdigit, ih]

/-- A reader of digits goes on alike in front of more. -/
theorem withDigits_append {next : List Char → List Char → Scan Numeral} {value : Numeral}
    (hmore : EndsNumber more)
    (hnext : ∀ digits left, next digits left = .found value rest →
      next digits (left ++ more) = .found value (rest ++ more))
    (h : withDigits cs next = .found value rest) :
    withDigits (cs ++ more) next = .found value (rest ++ more) := by
  obtain ⟨htake, hdrop⟩ := takeWhile_isDigit_append hmore cs
  rw [withDigits] at h ⊢
  rw [htake, hdrop]
  cases hdigits : cs.takeWhile Char.isDigit with
  | nil =>
    rw [hdigits] at h
    cases h
  | cons digit digits =>
    rw [hdigits] at h
    exact hnext _ _ h

/-- The sign of an exponent is found whatever follows. -/
theorem exponentSign_append (hne : cs ≠ []) (more : List Char) :
    exponentSign (cs ++ more) = ((exponentSign cs).1, (exponentSign cs).2 ++ more) := by
  obtain ⟨c, tail, rfl⟩ := List.exists_cons_of_ne_nil hne
  by_cases hplus : c = '+'
  · subst hplus
    rfl
  · by_cases hminus : c = '-'
    · subst hminus
      rfl
    · simp [exponentSign, hplus, hminus]

/-- An exponent ends where a number ends. -/
theorem scanExponent_append {numeral value : Numeral} (hmore : EndsNumber more)
    (h : scanExponent numeral cs = .found value rest) :
    scanExponent numeral (cs ++ more) = .found value (rest ++ more) := by
  have hne : cs ≠ [] := by
    rintro rfl
    cases h
  rw [scanExponent, exponentSign_append hne]
  refine withDigits_append hmore (fun digits left hfound => ?_) h
  simp only [Scan.found.injEq] at hfound ⊢
  exact ⟨hfound.1, by rw [hfound.2]⟩

/-- So does an exponent that may be missing. -/
theorem scanExponent?_append {numeral value : Numeral} (hmore : EndsNumber more)
    (h : scanExponent? numeral cs = .found value rest) :
    scanExponent? numeral (cs ++ more) = .found value (rest ++ more) := by
  cases cs with
  | nil =>
    cases h
    cases more with
    | nil => rfl
    | cons c more =>
      obtain ⟨-, -, hlower, hupper⟩ := hmore c rfl
      simp [scanExponent?, hlower, hupper]
  | cons c cs =>
    rw [List.cons_append, scanExponent?]
    rw [scanExponent?] at h
    split at h
    · rw [if_pos ‹_›]
      exact scanExponent_append hmore h
    · rw [if_neg ‹_›]
      cases h
      rfl

/-- So does a fraction that may be missing. -/
theorem scanFraction?_append {negative : Bool} {whole : List Char} {value : Numeral}
    (hmore : EndsNumber more) (h : scanFraction? negative whole cs = .found value rest) :
    scanFraction? negative whole (cs ++ more) = .found value (rest ++ more) := by
  cases cs with
  | nil =>
    rw [scanFraction?] at h
    · have hexponent := scanExponent?_append hmore h
      rw [List.nil_append] at hexponent ⊢
      rw [scanFraction?]
      · exact hexponent
      · rintro tail rfl
        exact (hmore '.' rfl).2.1 rfl
    · simp
  | cons c cs =>
    by_cases hpoint : c = '.'
    · subst hpoint
      rw [List.cons_append, scanFraction?]
      rw [scanFraction?] at h
      exact withDigits_append hmore (fun _ _ => scanExponent?_append hmore) h
    · rw [scanFraction?] at h
      · have hexponent := scanExponent?_append hmore h
        rw [List.cons_append] at hexponent ⊢
        rw [scanFraction?]
        · exact hexponent
        · exact fun _ htail => hpoint (List.cons.inj htail).1
      · exact fun _ htail => hpoint (List.cons.inj htail).1

/-- So does the magnitude of a number. -/
theorem scanMagnitude_append {negative : Bool} {value : Numeral} (hmore : EndsNumber more)
    (h : scanMagnitude negative cs = .found value rest) :
    scanMagnitude negative (cs ++ more) = .found value (rest ++ more) := by
  refine withDigits_append hmore (fun digits left hfound => ?_) h
  split at hfound
  · cases hfound
  · rw [if_neg ‹_›]
    exact scanFraction?_append hmore hfound

/-- Whether a token tells where a text breaks off. -/
def Token.isBroken : Token → Bool
  | .broken _ _ => true
  | _ => false

/-- A token with what follows it, and the same token with more text behind it. -/
def Continues (more : List Char) (found longer : Token × List Char) : Prop :=
  found.1.isBroken = false → longer = (found.1, found.2 ++ more)

namespace Continues

/-- The same token in front of more. -/
theorem refl (token : Token) (cs : List Char) : Continues more (token, cs) (token, cs ++ more) :=
  fun _ => rfl

/-- The same choice between tokens in front of more. -/
theorem ite {p : Prop} [Decidable p] {found longer other longerOther : Token × List Char}
    (h : Continues more found longer) (hother : Continues more other longerOther) :
    Continues more (if p then found else other) (if p then longer else longerOther) := by
  split
  · exact h
  · exact hother

/-- A string is the same token in front of more. -/
theorem stringToken (gathered : Gathered) (cs : List Char) :
    Continues more (stringToken (scanString gathered cs))
      (stringToken (scanString gathered (cs ++ more))) := by
  intro h
  cases hscan : scanString gathered cs with
  | found text rest =>
    rw [scanString_append hscan more]
    rfl
  | broken verdict =>
    rw [hscan] at h
    cases h

/-- A word is the same token in front of more. -/
theorem wordToken (token : Token) (expected cs : List Char) :
    Continues more (wordToken token expected cs) (wordToken token expected (cs ++ more)) := by
  intro h
  rcases hscan : scanWord expected cs with ⟨found, rest⟩
  simp only [Json.wordToken, hscan] at h ⊢
  cases found with
  | none => rw [scanWord_append hscan more]
  | some fault => cases h

/-- A number is the same token in front of what ends numbers. -/
theorem numberToken (hmore : EndsNumber more) (negative : Bool) (cs : List Char) :
    Continues more (numberToken (scanMagnitude negative cs))
      (numberToken (scanMagnitude negative (cs ++ more))) := by
  intro h
  cases hscan : scanMagnitude negative cs with
  | found value rest =>
    rw [scanMagnitude_append hmore hscan]
    rfl
  | broken verdict =>
    rw [hscan] at h
    cases h

end Continues

/-- A whole token is the same whatever stands behind it. -/
theorem scanToken_append (hmore : EndsNumber more) (c : Char) (cs : List Char) :
    Continues more (scanToken c cs) (scanToken c (cs ++ more)) := by
  unfold scanToken
  refine .ite (.refl _ cs) ?_
  refine .ite (.refl _ cs) ?_
  refine .ite (.refl _ cs) ?_
  refine .ite (.refl _ cs) ?_
  refine .ite (.refl _ cs) ?_
  refine .ite (.refl _ cs) ?_
  refine .ite (.stringToken _ cs) ?_
  refine .ite (.wordToken _ _ cs) ?_
  refine .ite (.wordToken _ _ cs) ?_
  refine .ite (.wordToken _ _ cs) ?_
  refine .ite (.numberToken hmore true cs) ?_
  exact .ite (.numberToken hmore false (c :: cs)) (.refl _ cs)

/-- The tokens of a text without a break, with more text behind it. -/
theorem tokens_append (hmore : EndsNumber more)
    (h : ∀ token ∈ tokens cs, token.isBroken = false) :
    tokens (cs ++ more) = tokens cs ++ tokens more := by
  fun_induction tokens cs with
  | case1 => rfl
  | case2 c rest hblank ih =>
    rw [List.cons_append, tokens, if_pos hblank]
    exact ih h
  | case3 c rest hblank ih =>
    obtain ⟨hfirst, hrest⟩ := List.forall_mem_cons.mp h
    rw [List.cons_append, tokens, if_neg hblank, scanToken_append hmore c rest hfirst, ih hrest]
    rfl

end TypedRoutes.Json
