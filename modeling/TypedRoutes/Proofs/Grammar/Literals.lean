import TypedRoutes.Proofs.Grammar.Trees
import TypedRoutes.Proofs.Json.Floats

/-!
# Literals of a program

The literal of a number is scanned as its numeral, which stands for the number exactly. A point
behind the literal belongs to it, unless there is one inside.
-/

namespace TypedRoutes

open Json

namespace Json

/-! ## Points -/

variable {negative : Bool} {whole fraction cs : List Char} {numeral : Numeral}

/-- Behind a fraction a number goes on with digits or an exponent only. -/
theorem scanMagnitude_fraction_append (h : Digital whole) (hzero : hasLeadingZero whole = false)
    (hfraction : Digital fraction) {rest : List Char}
    (hrest : ∀ c ∈ rest.head?, c.isDigit = false ∧ c ≠ 'e' ∧ c ≠ 'E') :
    scanMagnitude negative (whole ++ '.' :: (fraction ++ rest)) =
      .found ⟨negative, digitsValue (whole ++ fraction), -fraction.length, fraction.length, false⟩
        rest := by
  have hpoint : ∀ c ∈ ('.' :: (fraction ++ rest)).head?, c.isDigit = false := by
    rintro c ⟨⟩
    rfl
  rw [scanMagnitude, withDigits_append_of_digital h hpoint, hzero]
  simp only [Bool.false_eq_true, if_false]
  rw [scanFraction?, withDigits_append_of_digital hfraction fun c hc => (hrest c hc).1]
  cases rest with
  | nil => rfl
  | cons c rest =>
    obtain ⟨-, hlower, hupper⟩ := hrest c rfl
    simp [scanExponent?, hlower, hupper]

/-- Behind digits a point is part of the number. -/
theorem scanMagnitude_point (h : Digital whole) {c : Char} (hc : c.isDigit = false)
    (rest : List Char) :
    ∃ verdict, scanMagnitude negative (whole ++ '.' :: c :: rest) = .broken verdict := by
  have hpoint : ∀ d ∈ ('.' :: c :: rest).head?, d.isDigit = false := by
    rintro d ⟨⟩
    rfl
  have hnone : (c :: rest).takeWhile Char.isDigit = [] := by simp [hc]
  rw [scanMagnitude, withDigits_append_of_digital h hpoint]
  split
  · exact ⟨_, rfl⟩
  · rw [scanFraction?, withDigits, hnone]
    exact ⟨_, rfl⟩

/-- A number without an exponent is written with digits alone, or with a point between digits. -/
theorem digital_of_scan (h : scanMagnitude negative cs = .found numeral [])
    (hchars : ∀ c ∈ cs, c.isDigit = true ∨ c = '.') :
    ('.' ∉ cs ∧ Digital cs) ∨
      ∃ whole fraction, cs = whole ++ '.' :: fraction ∧ Digital whole ∧
        hasLeadingZero whole = false ∧ Digital fraction := by
  obtain ⟨whole, left, rfl, hwhole, hleft, hfound⟩ := withDigits_eq_found h
  rw [List.forall_mem_append] at hchars
  split at hfound
  · cases hfound
  rename_i hzero
  cases left with
  | nil =>
    rw [List.append_nil]
    exact .inl ⟨fun hpoint => absurd (hwhole.digits _ hpoint) (by decide), hwhole⟩
  | cons c left =>
    obtain rfl : c = '.' := (hchars.2 c (.head _)).resolve_left (Bool.eq_false_iff.mp (hleft c rfl))
    rw [scanFraction?] at hfound
    obtain ⟨fraction, behind, rfl, hfraction, hbehind, hfound⟩ := withDigits_eq_found hfound
    cases behind with
    | nil =>
      rw [List.append_nil]
      exact .inr ⟨whole, fraction, rfl, hwhole, Bool.eq_false_iff.mpr hzero, hfraction⟩
    | cons d behind =>
      have hmem : d ∈ '.' :: (fraction ++ d :: behind) := by simp
      obtain rfl : d = '.' := (hchars.2 d hmem).resolve_left (Bool.eq_false_iff.mp (hbehind d rfl))
      cases hfound

end Json

/-! ## Literals -/

/-- The numeral of a finite number, with the sign of the number, stands for the number. -/
theorem literalNumeral_spec {x : Float} (h : x.isFinite = true) :
    scanMagnitude false (magnitudeLiteral (Decimal.Binary.ofFloat x)) =
      .found (literalNumeral x) [] ∧
      Numeral.toFloat? { literalNumeral x with negative := Decimal.isNegative x } = some x ∧
        (literalNumeral x).negative = false := by
  obtain ⟨significand, exponent, places, whole, hscan, hfloat⟩ :
      ∃ significand exponent places whole,
      scanMagnitude false (magnitudeLiteral (Decimal.Binary.ofFloat x)) =
        .found ⟨false, significand, exponent, places, whole⟩ [] ∧
      Numeral.toFloat? ⟨Decimal.isNegative x, significand, exponent, places, whole⟩ = some x := by
    rcases Decimal.unpack_of_isFinite h with ⟨hzero, -⟩ | ⟨hpos, hm, -, -⟩
    · obtain ⟨significand, exponent, places, whole, hvalue, hscan⟩ :=
        denotes_magnitudeLiteral_zero hzero
      have hsignificand : significand = 0 := by
        have hscale : (10 : ℚ) ^ exponent ≠ 0 := by positivity
        exact_mod_cast (mul_eq_zero.mp hvalue).resolve_right hscale
      subst hsignificand
      exact ⟨0, exponent, places, whole, hscan false, toFloat?_of_zero h hzero⟩
    · obtain ⟨_, ⟨significand, exponent, places, whole, rfl, hscan⟩, hrounds⟩ :=
        denotes_magnitudeLiteral hm hpos
      exact ⟨significand, exponent, places, whole, hscan false, toFloat?_of_rounds h hrounds hpos⟩
  have hnumeral : literalNumeral x = ⟨false, significand, exponent, places, whole⟩ := by
    rw [literalNumeral, hscan]
  rw [hnumeral]
  exact ⟨hscan, hfloat, rfl⟩

end TypedRoutes
