import TypedRoutes.Json.Token

/-!
# Scanning makes progress

Every scanner leaves a rest that is no longer than what it was given, and a token takes at least
one character, so a text is read in finitely many steps.
-/

namespace TypedRoutes.Json

/-- A string takes at least its closing quote. -/
theorem scanString_length (gathered : Gathered) (cs : List Char) {text : Option String}
    {rest : List Char} (h : scanString gathered cs = .found text rest) :
    rest.length < cs.length := by
  fun_induction scanString gathered cs <;> simp_all <;> grind

/-- Digits are taken off the front of the text before anything that follows them. -/
theorem withDigits_length {next : List Char → List Char → Scan Numeral}
    (hn : ∀ digits left {value : Numeral} {rest : List Char},
      next digits left = .found value rest → rest.length ≤ left.length)
    {cs : List Char} {value : Numeral} {rest : List Char}
    (h : withDigits cs next = .found value rest) : rest.length < cs.length := by
  unfold withDigits at h
  cases ht : cs.takeWhile Char.isDigit with
  | nil => simp [ht] at h
  | cons digit digits =>
    rw [ht] at h
    have hr := hn _ _ h
    have hs := congrArg List.length (List.takeWhile_append_dropWhile (p := Char.isDigit) (l := cs))
    simp only [List.length_append, ht, List.length_cons] at hs
    omega

/-- A sign takes at most one character. -/
theorem exponentSign_length (cs : List Char) : (exponentSign cs).2.length ≤ cs.length := by
  fun_cases exponentSign cs <;> simp

/-- An exponent leaves no more than it was given. -/
theorem scanExponent_length (numeral : Numeral) (cs : List Char) {value : Numeral}
    {rest : List Char} (h : scanExponent numeral cs = .found value rest) :
    rest.length ≤ cs.length := by
  have hd :=
    withDigits_length (fun _ _ _ _ hf => by simp only [Scan.found.injEq] at hf; simp [hf.2]) h
  exact Nat.le_trans (Nat.le_of_lt hd) (exponentSign_length cs)

/-- An optional exponent leaves no more than it was given. -/
theorem scanExponent?_length (numeral : Numeral) (cs : List Char) {value : Numeral}
    {rest : List Char} (h : scanExponent? numeral cs = .found value rest) :
    rest.length ≤ cs.length := by
  fun_cases scanExponent? numeral cs with
  | case1 => simp_all [scanExponent?]
  | case2 c more hc =>
    rw [scanExponent?, if_pos hc] at h
    exact Nat.le_succ_of_le (scanExponent_length numeral more h)
  | case3 c more hc =>
    rw [scanExponent?, if_neg hc] at h
    simp_all

/-- An optional fraction leaves no more than it was given. -/
theorem scanFraction?_length (negative : Bool) (whole cs : List Char) {value : Numeral}
    {rest : List Char} (h : scanFraction? negative whole cs = .found value rest) :
    rest.length ≤ cs.length := by
  unfold scanFraction? at h
  split at h
  · exact Nat.le_succ_of_le
      (Nat.le_of_lt (withDigits_length (fun _ _ _ _ hf => scanExponent?_length _ _ hf) h))
  · exact scanExponent?_length _ _ h

/-- A number takes at least one digit. -/
theorem scanMagnitude_length (negative : Bool) (cs : List Char) {value : Numeral}
    {rest : List Char} (h : scanMagnitude negative cs = .found value rest) :
    rest.length < cs.length := by
  refine withDigits_length (fun digits left value rest hf => ?_) h
  split at hf
  · simp at hf
  · exact scanFraction?_length _ _ _ hf

/-- A word leaves no more than it was given. -/
theorem scanWord_length (expected cs : List Char) :
    (scanWord expected cs).2.length ≤ cs.length := by
  fun_induction scanWord expected cs <;> simp_all
  omega

/-- The token of a word leaves no more than it was given. -/
theorem wordToken_length (token : Token) (expected cs : List Char) :
    (wordToken token expected cs).2.length ≤ cs.length := by
  have h := scanWord_length expected cs
  unfold wordToken
  split <;> simp_all

/-- The token of a number leaves what its scan leaves. -/
theorem numberToken_length {scan : Scan Numeral} {bound : Nat}
    (h : ∀ {value rest}, scan = .found value rest → rest.length ≤ bound) :
    (numberToken scan).2.length ≤ bound := by
  cases scan with
  | found value rest => exact h rfl
  | broken verdict => exact Nat.zero_le _

/-- The token of a string leaves what its scan leaves. -/
theorem stringToken_length {scan : Scan (Option String)} {bound : Nat}
    (h : ∀ {text rest}, scan = .found text rest → rest.length ≤ bound) :
    (stringToken scan).2.length ≤ bound := by
  cases scan with
  | found text rest => exact h rfl
  | broken verdict => exact Nat.zero_le _

/-- A token that starts with a character leaves no more than what follows the character. -/
theorem scanToken_length (c : Char) (rest : List Char) :
    (scanToken c rest).2.length ≤ rest.length := by
  fun_cases scanToken c rest
  · exact Nat.le_refl _
  · exact Nat.le_refl _
  · exact Nat.le_refl _
  · exact Nat.le_refl _
  · exact Nat.le_refl _
  · exact Nat.le_refl _
  · exact stringToken_length fun h => Nat.le_of_lt (scanString_length _ _ h)
  · exact wordToken_length _ _ _
  · exact wordToken_length _ _ _
  · exact wordToken_length _ _ _
  · exact numberToken_length fun h => Nat.le_of_lt (scanMagnitude_length _ _ h)
  · exact numberToken_length fun h => Nat.le_of_lt_succ (scanMagnitude_length _ _ h)
  · exact Nat.le_refl _

end TypedRoutes.Json
