import TypedRoutes.Proofs.Json.Numbers

/-!
# Texts of floats

A float is determined by its unpacked form. The text that a finite float is stored as is scanned as
a decimal in its interval, whether it is laid out positionally or in scientific notation, so what is
read from it is the very same float, and never a whole number.
-/

namespace TypedRoutes

namespace Decimal

open Float.Model (UnpackedFloat)

/-! ## Floats and their unpacked form -/

/-- A float is known from its bits. -/
theorem eq_of_toBits {x y : Float} (h : x.toBits = y.toBits) : x = y := by
  obtain ⟨⟨bits, hx⟩⟩ := x
  obtain ⟨⟨bits', hy⟩⟩ := y
  cases (h : bits = bits')
  rfl

/-- A float is known from its three fields. -/
theorem eq_of_fields {x y : Float} (hsign : signOf x = signOf y)
    (hexponent : exponentField x = exponentField y)
    (hfraction : fractionField x = fractionField y) :
    x = y := by
  refine eq_of_toBits (UInt64.eq_of_toBitVec_eq ?_)
  rw [toBits_eq_packComponents, toBits_eq_packComponents, hsign, hexponent, hfraction]

/-- The decoded significand and exponent determine the fields. -/
theorem fields_of_ofFloat {x y : Float} (h : Binary.ofFloat x = Binary.ofFloat y) :
    exponentField x = exponentField y ∧ fractionField x = fractionField y := by
  have hx := fractionField_lt x
  have hy := fractionField_lt y
  have hcount : fractionCount = 2 ^ 52 := rfl
  rw [Binary.ofFloat_eq, Binary.ofFloat_eq, hcount] at h
  split at h <;> split at h <;> simp only [Binary.mk.injEq] at h <;> omega

/-- Zero has the smallest exponent. -/
theorem ofFloat_exponent_of_zero {x : Float} (h : (Binary.ofFloat x).significand = 0) :
    (Binary.ofFloat x).exponent = -1074 := by
  have hcount : fractionCount = 2 ^ 52 := rfl
  rw [Binary.ofFloat_eq, hcount] at h ⊢
  split
  · rfl
  · rw [if_neg ‹_›] at h
    dsimp only at h
    omega

/-- A finite float is determined by its unpacked form. -/
theorem eq_of_unpack {x y : Float} (hx : x.isFinite = true)
    (h : x.toModel.unpack = y.toModel.unpack) : x = y := by
  have hy : y.isFinite = true := by
    change y.toModel.unpack.isFinite = true
    rw [← h]
    exact hx
  obtain ⟨hsign, hbinary⟩ : signOf x = signOf y ∧ Binary.ofFloat x = Binary.ofFloat y := by
    rcases unpack_of_isFinite hx with ⟨hzero, hunpack⟩ | ⟨hpos, -, -, hunpack⟩ <;>
      rcases unpack_of_isFinite hy with ⟨hzero', hunpack'⟩ | ⟨hpos', -, -, hunpack'⟩ <;>
      rw [hunpack, hunpack'] at h
    · have hexponent := ofFloat_exponent_of_zero hzero
      have hexponent' := ofFloat_exponent_of_zero hzero'
      exact ⟨UnpackedFloat.zero.inj h, by
        cases hb : Binary.ofFloat x
        cases hb' : Binary.ofFloat y
        simp_all⟩
    · cases h
    · cases h
    · obtain ⟨hs, hm, he⟩ := UnpackedFloat.finite.inj h
      exact ⟨hs, by
        cases hb : Binary.ofFloat x
        cases hb' : Binary.ofFloat y
        simp_all⟩
  obtain ⟨hexponent, hfraction⟩ := fields_of_ofFloat hbinary
  exact eq_of_fields hsign hexponent hfraction

end Decimal

namespace Json

/-! ## Decimals that are read as a float -/

/-- A decimal that rounds to the magnitude of a finite float is read as the float, once its sign is
put in front. -/
theorem toFloat?_of_rounds {x : Float} {significand places : Nat} {exponent : Int}
    {whole : Bool}     (h : x.isFinite = true)
    (hrounds : Decimal.Rounds (significand * 10 ^ exponent) (Decimal.Binary.ofFloat x).significand
      (Decimal.Binary.ofFloat x).exponent) (hpos : 0 < (Decimal.Binary.ofFloat x).significand) :
    Numeral.toFloat? ⟨Decimal.isNegative x, significand, exponent, places, whole⟩ = some x := by
  rcases Decimal.unpack_of_isFinite h with ⟨hzero, -⟩ | ⟨hpos', hm, hrange, hunpack⟩
  · omega
  · obtain ⟨value, hnearest, hread⟩ := hrounds.nearestFloat? hm hpos' hrange
    rw [Numeral.toFloat?, hnearest, Option.map_some]
    refine congrArg some (Decimal.eq_of_unpack h ?_).symm
    rw [hunpack, Decimal.signOf]
    cases Decimal.isNegative x with
    | false => exact hread.symm
    | true => exact (hm.unpack_neg hrange hread).symm

/-- Zero is read as a zero with the sign of the float. -/
theorem toFloat?_of_zero {x : Float} {exponent : Int} {places : Nat} {whole : Bool}
    (h : x.isFinite = true)
    (hzero : (Decimal.Binary.ofFloat x).significand = 0) :
    Numeral.toFloat? ⟨Decimal.isNegative x, 0, exponent, places, whole⟩ = some x := by
  rcases Decimal.unpack_of_isFinite h with ⟨-, hunpack⟩ | ⟨hpos, -⟩
  · have hread : Numeral.toFloat? ⟨Decimal.isNegative x, 0, exponent, places, whole⟩ =
        some (if Decimal.isNegative x then -0 else 0) := rfl
    rw [hread]
    refine congrArg some (Decimal.eq_of_unpack h ?_).symm
    rw [hunpack, Decimal.signOf]
    cases Decimal.isNegative x <;> rfl
  · omega

/-! ## Numerals with a point or an exponent -/

/-- Digits are read up to the first character that is none. -/
theorem withDigits_eq_found {cs rest : List Char} {next : List Char → List Char → Scan Numeral}
    {value : Numeral} (h : withDigits cs next = .found value rest) :
    ∃ digits left, cs = digits ++ left ∧ Digital digits ∧
      (∀ c ∈ left.head?, c.isDigit = false) ∧ next digits left = .found value rest := by
  rw [withDigits] at h
  split at h
  · cases h
  · rename_i digit digits hdigits
    refine ⟨cs.takeWhile Char.isDigit, cs.dropWhile Char.isDigit,
      List.takeWhile_append_dropWhile.symm, ⟨?_, fun c hc => List.mem_takeWhile_imp hc⟩, ?_, ?_⟩
    · rw [hdigits]
      exact List.cons_ne_nil digit digits
    · intro c hc
      have hfirst := List.head?_dropWhile_not Char.isDigit cs
      rw [hc] at hfirst
      exact hfirst
    · rwa [hdigits]

/-- What has an exponent is not whole. -/
theorem scanExponent_whole {numeral value : Numeral} {cs rest : List Char}
    (h : scanExponent numeral cs = .found value rest) : value.whole = false := by
  obtain ⟨_, _, -, -, -, hfound⟩ := withDigits_eq_found h
  cases hfound
  rfl

/-- What is whole ends before any exponent. -/
theorem scanExponent?_whole {numeral value : Numeral} {cs : List Char}
    (h : scanExponent? numeral cs = .found value []) (hwhole : value.whole = true) :
    cs = [] ∧ value = numeral := by
  cases cs with
  | nil =>
    cases h
    exact ⟨rfl, rfl⟩
  | cons c cs =>
    rw [scanExponent?] at h
    split at h
    · rw [scanExponent_whole h] at hwhole
      cases hwhole
    · cases h

/-- A numeral that counts as whole is written with digits alone. -/
theorem scanMagnitude_digits {negative : Bool} {value : Numeral} {cs : List Char}
    (h : scanMagnitude negative cs = .found value []) (hwhole : value.whole = true) :
    ∀ c ∈ cs, c.isDigit = true := by
  obtain ⟨digits, left, rfl, hdigits, -, hfound⟩ := withDigits_eq_found h
  split at hfound
  · cases hfound
  · suffices left = [] by simpa [this] using hdigits.digits
    unfold scanFraction? at hfound
    split at hfound
    · obtain ⟨_, _, -, -, -, hfraction⟩ := withDigits_eq_found hfound
      obtain ⟨-, rfl⟩ := scanExponent?_whole hfraction hwhole
      cases hwhole
    · exact (scanExponent?_whole hfound hwhole).1

/-- The text of a magnitude with a point or an exponent, and its value. -/
def DenotesFloat (cs : List Char) (v : ℚ) : Prop :=
  ∃ (significand : Nat) (exponent : Int) (places : Nat), significand * (10 : ℚ) ^ exponent = v ∧
    ∀ negative,
      scanMagnitude negative cs = .found ⟨negative, significand, exponent, places, false⟩ []

/-- What is written with more than digits denotes a float. -/
theorem Denotes.float {cs : List Char} {v : ℚ} (h : Denotes cs v) {c : Char} (hmem : c ∈ cs)
    (hdigit : c.isDigit = false) : DenotesFloat cs v := by
  obtain ⟨significand, exponent, places, whole, hvalue, hscan⟩ := h
  refine ⟨significand, exponent, places, hvalue, fun negative => ?_⟩
  cases whole with
  | false => exact hscan negative
  | true =>
    rw [scanMagnitude_digits (hscan negative) rfl c hmem] at hdigit
    cases hdigit

/-- A magnitude without a point is that of a whole number, and one more digit behind a point changes
nothing. -/
theorem denotesFloat_point {whole : List Char} (h : Digital whole)
    (hzero : hasLeadingZero whole = false) :
    DenotesFloat (whole ++ ['.', '0']) (digitsValue whole) := by
  have hfraction : Digital ['0'] := ⟨by simp, by simp⟩
  refine ⟨_, _, _, ?_, fun negative => scanMagnitude_fraction h hzero hfraction⟩
  rw [digitsValue_append]
  have hvalue : digitsValue ['0'] = 0 := rfl
  rw [hvalue]
  push_cast
  simp

/-- An exponent is read back with its sign. -/
theorem scanExponent_signedExponent (exponent : Int) (numeral : Numeral) :
    scanExponent numeral (Decimal.signedExponent exponent) =
      .found ⟨numeral.negative, numeral.significand, numeral.exponent + exponent, numeral.places,
        false⟩ [] := by
  rw [Decimal.signedExponent]
  split
  · rw [scanExponent, exponentSign]
    rw [withDigits_of_digital (digital_toDigits _), digitsValue_toDigits]
    have hexponent : -((-exponent).toNat : Int) = exponent := by omega
    simp only [if_true, hexponent]
  · rw [scanExponent, exponentSign]
    rw [withDigits_of_digital (digital_toDigits _), digitsValue_toDigits]
    have hexponent : (exponent.toNat : Int) = exponent := by omega
    simp only [Bool.false_eq_true, if_false, hexponent]

/-- A whole number in front of an exponent. -/
theorem scanMagnitude_exponent {whole rest : List Char} {negative : Bool} (h : Digital whole)
    (hzero : hasLeadingZero whole = false) :
    scanMagnitude negative (whole ++ 'e' :: rest) =
      scanExponent ⟨negative, digitsValue whole, 0, 0, true⟩ rest := by
  have hletter : ∀ c ∈ ('e' :: rest).head?, c.isDigit = false := by
    rintro c ⟨⟩
    rfl
  rw [scanMagnitude, withDigits_append_of_digital h hletter, hzero]
  rfl

/-- A fraction in front of an exponent. -/
theorem scanMagnitude_fraction_exponent {whole fraction rest : List Char} {negative : Bool}
    (h : Digital whole) (hzero : hasLeadingZero whole = false) (hfraction : Digital fraction) :
    scanMagnitude negative (whole ++ '.' :: (fraction ++ 'e' :: rest)) =
      scanExponent ⟨negative, digitsValue (whole ++ fraction), -fraction.length, fraction.length,
        false⟩ rest := by
  have hpoint : ∀ c ∈ ('.' :: (fraction ++ 'e' :: rest)).head?, c.isDigit = false := by
    rintro c ⟨⟩
    rfl
  have hletter : ∀ c ∈ ('e' :: rest).head?, c.isDigit = false := by
    rintro c ⟨⟩
    rfl
  rw [scanMagnitude, withDigits_append_of_digital h hpoint, hzero]
  simp only [Bool.false_eq_true, if_false]
  rw [scanFraction?, withDigits_append_of_digital hfraction hletter]
  rfl

/-- Digits in scientific notation stand for the decimal whose first digit is at the place given by
the exponent. -/
theorem denotesFloat_scientific {digits : List Char} (h : Digital digits) (leading : Int) :
    DenotesFloat (Decimal.scientific digits leading)
      (digitsValue digits * 10 ^ (leading + 1 - digits.length)) := by
  obtain ⟨first, rest, rfl⟩ := List.exists_cons_of_ne_nil h.ne_nil
  have hfirst : Digital [first] := ⟨by simp, by simpa using h.digits first (by simp)⟩
  have hzero : hasLeadingZero [first] = false := by
    unfold hasLeadingZero
    split <;> simp_all
  cases rest with
  | nil =>
    refine ⟨digitsValue [first], leading, 0, by simp, fun negative => ?_⟩
    have hscan : scanMagnitude negative ([first] ++ 'e' :: Decimal.signedExponent leading) = _ :=
      scanMagnitude_exponent hfirst hzero
    rw [scanExponent_signedExponent] at hscan
    simpa [Decimal.scientific] using hscan
  | cons second others =>
    have hfraction : Digital (second :: others) :=
      ⟨by simp, fun c hc => h.digits c (List.mem_cons_of_mem _ hc)⟩
    refine ⟨digitsValue (first :: second :: others), -(second :: others).length + leading,
      (second :: others).length, ?_, fun negative => ?_⟩
    · congr 2
      simp only [List.length_cons]
      omega
    · have hscan : scanMagnitude negative ([first] ++ '.' :: ((second :: others) ++
          'e' :: Decimal.signedExponent leading)) = _ :=
        scanMagnitude_fraction_exponent hfirst hzero hfraction
      rw [scanExponent_signedExponent] at hscan
      simpa [Decimal.scientific] using hscan

/-! ## Stored floats -/

/-- Digits denote their value only. -/
theorem Denotes.eq_digitsValue {cs : List Char} {v : ℚ} (h : Denotes cs v) (hdigital : Digital cs)
    (hzero : hasLeadingZero cs = false) : v = digitsValue cs := by
  obtain ⟨significand, exponent, places, whole, rfl, hscan⟩ := h
  have hfound := hscan false
  rw [scanMagnitude_whole hdigital hzero] at hfound
  cases hfound
  simp

/-- A decimal that is laid out without a point has only digits. -/
theorem digital_positional {digits : List Char} (h : Digital digits)
    (hzero : digits.head? ≠ some '0') {leading : Int}
    (hpoint : '.' ∉ Decimal.positional digits leading) :
    Digital (Decimal.positional digits leading) ∧
      hasLeadingZero (Decimal.positional digits leading) = false := by
  rw [Decimal.positional] at hpoint ⊢
  split at hpoint
  · simp at hpoint
  · rw [if_neg ‹_›]
    dsimp only at hpoint ⊢
    split at hpoint
    · rename_i hnone
      rw [List.drop_eq_nil_iff] at hnone
      rw [List.take_of_length_le hnone]
      refine ⟨⟨List.append_ne_nil_of_left_ne_nil h.ne_nil _,
        List.forall_mem_append.mpr ⟨h.digits, isDigit_zeros _⟩⟩, hasLeadingZero_of_head ?_⟩
      rwa [List.head?_append_of_ne_nil _ h.ne_nil]
    · simp at hpoint

/-- Significant digits in scientific form denote the number with its exponent. -/
theorem denotesFloat_digits (digits : Decimal.Digits) (h : 0 < digits.count) :
    let shown := Decimal.significantDigits digits.count
    let text := Decimal.positional shown digits.leading
    DenotesFloat (if text.contains '.' then text else text ++ ['.', '0'])
      (digits.count * 10 ^ digits.unit) := by
  intro shown text
  have hdenotes : Denotes text (digits.count * 10 ^ digits.unit) := denotes_digits digits h
  split
  · rename_i hpoint
    exact hdenotes.float (List.contains_iff_mem.mp hpoint) rfl
  · rename_i hpoint
    obtain ⟨hdigital, hhead⟩ := digital_significantDigits h
    obtain ⟨htext, hleading⟩ := digital_positional hdigital hhead
      fun hmem => hpoint (List.contains_iff_mem.mpr hmem)
    rw [hdenotes.eq_digitsValue htext hleading]
    exact denotesFloat_point htext hleading

/-- The text of a magnitude denotes a value that is rounded to it. -/
theorem denotesFloat_magnitudeText {b : Decimal.Binary}
    (hm : Decimal.Canonical b.significand b.exponent) (hpos : 0 < b.significand) :
    ∃ v, DenotesFloat (magnitudeText b) v ∧ Decimal.Rounds v b.significand b.exponent := by
  have hrounds := Decimal.Binary.shortest_rounds .even hm hpos
  have hcount : 0 < (b.shortest .even).count := by
    rcases Nat.eq_zero_or_pos (b.shortest .even).count with hzero | hcount
    · have hvalue := hrounds.pos hpos
      rw [hzero, Nat.cast_zero, zero_mul] at hvalue
      exact absurd hvalue (lt_irrefl 0)
    · exact hcount
  refine ⟨_, ?_, hrounds⟩
  rw [magnitudeText, if_neg hpos.ne']
  dsimp only
  split
  · exact denotesFloat_digits _ hcount
  · rw [← significantDigits_value]
    exact denotesFloat_scientific (digital_significantDigits hcount).1 _

/-- The text of zero denotes zero. -/
theorem denotesFloat_magnitudeText_zero {b : Decimal.Binary} (h : b.significand = 0) :
    DenotesFloat (magnitudeText b) 0 := by
  have hzero : Digital ['0'] := ⟨by simp, by simp⟩
  rw [magnitudeText, if_pos h]
  simpa [digitsValue] using denotesFloat_point hzero rfl

/-- The numeral that the text of a float is scanned as. -/
def floatNumeral (x : Float) : Numeral :=
  match scanMagnitude (Decimal.isNegative x) (magnitudeText (Decimal.Binary.ofFloat x)) with
  | .found numeral _ => numeral
  | .broken _ => default

/-- The text of a finite float is read as its numeral, and the numeral as the float. -/
theorem reads_numberText {x : Float} (h : x.isFinite = true) :
    Reads (numberText x).toList (.number (floatNumeral x)) ∧ (floatNumeral x).toFloat? = some x ∧
      (floatNumeral x).whole = false := by
  obtain ⟨significand, exponent, places, hscan, hfloat⟩ : ∃ significand exponent places,
      (∀ negative, scanMagnitude negative (magnitudeText (Decimal.Binary.ofFloat x)) =
        .found ⟨negative, significand, exponent, places, false⟩ []) ∧
      Numeral.toFloat? ⟨Decimal.isNegative x, significand, exponent, places, false⟩ = some x := by
    rcases Decimal.unpack_of_isFinite h with ⟨hzero, -⟩ | ⟨hpos, hm, -, -⟩
    · obtain ⟨significand, exponent, places, hvalue, hscan⟩ := denotesFloat_magnitudeText_zero hzero
      have hsignificand : significand = 0 := by
        have hscale : (10 : ℚ) ^ exponent ≠ 0 := by positivity
        exact_mod_cast (mul_eq_zero.mp hvalue).resolve_right hscale
      subst hsignificand
      exact ⟨0, exponent, places, hscan, toFloat?_of_zero h hzero⟩
    · obtain ⟨_, ⟨significand, exponent, places, rfl, hscan⟩, hrounds⟩ :=
        denotesFloat_magnitudeText hm hpos
      exact ⟨significand, exponent, places, hscan, toFloat?_of_rounds h hrounds hpos⟩
  have hnumeral : floatNumeral x =
      ⟨Decimal.isNegative x, significand, exponent, places, false⟩ := by
    rw [floatNumeral, hscan]
  rw [hnumeral, numberText, if_pos h, String.toList_ofList]
  exact ⟨reads_of_scan (hscan _), hfloat, rfl⟩

end Json

end TypedRoutes
