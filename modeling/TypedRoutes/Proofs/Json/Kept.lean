import TypedRoutes.Json.Shape
import TypedRoutes.Proofs.Json.Floats
import TypedRoutes.Proofs.Json.Quoting

/-!
# Numbers that are read back

The text of a number is that of the float nearest to it, but the reader of a document rounds more
than once: the digits to a float, and then its product or quotient with a power of ten. So the
number may come back as a neighbour. Where the digits make a float exactly and the power of ten is
one too, only one rounding is left and the reader finds the nearest float. This covers every whole
number with less than 50 bits.
-/

namespace TypedRoutes

namespace Json

/-- Whether a number is read back from its text. -/
def Kept (x : Float) : Prop := (Draft.read (numberText x)).1.float = .ok x

/-- A number is kept if it is finite and the reader takes its numeral for it. -/
theorem kept_iff {x : Float} :
    Kept x ↔ x.isFinite = true ∧ (floatNumeral x).take? = some x := by
  by_cases hfinite : x.isFinite = true
  · have hread : Draft.read (numberText x) = (.number (floatNumeral x), none) :=
      Reads.read (reads_numberText hfinite).1
    rw [Kept, hread, Draft.float]
    cases (floatNumeral x).take? <;> simp [hfinite]
  · have hnull : numberText x = "null" := by rw [numberText, if_neg hfinite]
    have hread : Draft.read (numberText x) = (.null, none) := by
      rw [hnull]
      exact Reads.read reads_null
    rw [Kept, hread]
    simp [hfinite, Draft.float]

/-! ## Digits that fit into a word -/

theorem digitsValue_cons (digit : Char) (digits : List Char) :
    digitsValue (digit :: digits) =
      (digit.toNat - 48) * 10 ^ digits.length + digitsValue digits := by
  have hone : digitsValue [digit] = digit.toNat - 48 := Nat.zero_add _
  rw [← List.singleton_append, digitsValue_append, hone]

/-- Digits are taken as long as all of them fit. -/
theorem takeDigits_of_lt {value : Nat} {digits : List Char}
    (h : value * 10 ^ digits.length + digitsValue digits < naturalBound) :
    takeDigits value digits = (value * 10 ^ digits.length + digitsValue digits, 0) := by
  induction digits generalizing value with
  | nil => simp [takeDigits, digitsValue]
  | cons digit rest ih =>
    have htotal : value * 10 ^ (digit :: rest).length + digitsValue (digit :: rest) =
        (value * 10 + (digit.toNat - 48)) * 10 ^ rest.length + digitsValue rest := by
      rw [digitsValue_cons, List.length_cons, pow_succ]
      ring
    rw [htotal] at h ⊢
    have hpow : 0 < 10 ^ rest.length := by positivity
    have hlonger : value * 10 + (digit.toNat - 48) < naturalBound := by
      calc value * 10 + (digit.toNat - 48)
          ≤ (value * 10 + (digit.toNat - 48)) * 10 ^ rest.length := Nat.le_mul_of_pos_right _ hpow
        _ ≤ _ := Nat.le_add_right ..
        _ < naturalBound := h
    rw [takeDigits, if_pos hlonger, ih h]

/-- The digits behind the point are as many as there are places, and stand for the rest of the
significand. -/
theorem fractionDigits_spec (n : Numeral) : n.fractionDigits.length = n.places ∧
    digitsValue n.fractionDigits = n.significand % 10 ^ n.places := by
  have hpow : 0 < 10 ^ n.places := by positivity
  have hrest := Nat.mod_lt n.significand hpow
  obtain ⟨total, htotal⟩ :
      ∃ total, 10 ^ n.places + n.significand % 10 ^ n.places = total := ⟨_, rfl⟩
  have hlength : (Nat.toDigits 10 total).length = n.places + 1 := by
    have hlow := Decimal.lt_pow_digitCount total
    have hhigh := Decimal.pow_digitCount_le (n := total) (by omega)
    rw [Decimal.digitCount] at hlow hhigh
    have hmore : n.places < (Nat.toDigits 10 total).length :=
      (Nat.pow_lt_pow_iff_right (by decide : 1 < 10)).mp (by omega)
    have hfewer : (Nat.toDigits 10 total).length - 1 < n.places + 1 :=
      (Nat.pow_lt_pow_iff_right (by decide : 1 < 10)).mp (by rw [pow_succ]; omega)
    omega
  rw [Numeral.fractionDigits, Nat.pow_eq, htotal]
  cases hdigits : Nat.toDigits 10 total with
  | nil => rw [hdigits] at hlength; cases hlength
  | cons digit rest =>
    have hvalue := digitsValue_toDigits total
    rw [hdigits, List.length_cons, Nat.add_right_cancel_iff] at hlength
    rw [hdigits, digitsValue_cons, hlength] at hvalue
    have hlt : digitsValue rest < 10 ^ n.places := by
      rw [← hlength]
      refine digitsValue_lt fun c hc => (digital_toDigits total).digits c ?_
      rw [hdigits]
      exact List.mem_cons_of_mem _ hc
    refine ⟨hlength, ?_⟩
    rw [List.tail_cons]
    have hmod := congrArg (· % 10 ^ n.places) (hvalue.trans htotal.symm)
    simpa [Nat.mod_eq_of_lt hlt] using hmod

/-- A significand that fits into a word is taken with all its digits. -/
theorem Numeral.taken_of_lt {n : Numeral} (h : n.significand < naturalBound) :
    n.taken = (n.significand, n.exponent) := by
  obtain ⟨hlength, hfraction⟩ := fractionDigits_spec n
  have hvalue : digitsValue n.wholeDigits = n.significand / 10 ^ n.places := digitsValue_toDigits _
  have hsplit : n.significand / 10 ^ n.places * 10 ^ n.places + n.significand % 10 ^ n.places =
      n.significand := Nat.div_add_mod' ..
  have hwhole : takeDigits 0 n.wholeDigits = (n.significand / 10 ^ n.places, 0) := by
    rw [takeDigits_of_lt, Nat.zero_mul, Nat.zero_add, hvalue]
    rw [Nat.zero_mul, Nat.zero_add, hvalue]
    exact (Nat.div_le_self ..).trans_lt h
  have hall : takeDigits (n.significand / 10 ^ n.places) n.fractionDigits = (n.significand, 0) := by
    rw [takeDigits_of_lt] <;> rw [hlength, hfraction, hsplit]
    exact h
  simp [taken, hwhole, hall]

/-! ## Powers of ten that are floats exactly -/

/-- Up to the 22nd, the powers of ten are those that a decimal is made from by one operation. -/
theorem powerOfTen_exact : ∀ k : Fin 23,
    powerOfTen k = Float.exactlyRepresentablePowersOfTen[k] := by
  decide +kernel

/-- Zero stays zero. -/
theorem zero_scaled : ∀ k : Fin 23, Float.ofNat 0 / powerOfTen k = 0 ∧
    Float.ofNat 0 * powerOfTen k = 0 := by
  decide +kernel

theorem ofNat_eq_toFloat {n : Nat} (hpos : 0 < n) (hn : n < 2 ^ 53) :
    Float.ofNat n = n.toUInt64.toFloat := by
  have hunpack := Decimal.unpack_ofNat_small hpos hn
  exact Decimal.eq_of_unpack (congrArg Float.Model.UnpackedFloat.isFinite hunpack)
    (hunpack.trans (Decimal.unpack_toFloat hpos hn).symm)

/-- The nearest float of a decimal with few digits and a small exponent is made by one operation. -/
theorem scale?_of_nearest {significand : Nat} {exponent : Int} {x : Float}
    (hsignificand : significand < 2 ^ 53) (hexponent : exponent.natAbs < 23)
    (h : Decimal.nearestFloat? significand exponent = some x) :
    scale? (Float.ofNat significand) exponent = some x := by
  obtain ⟨hquotient, hproduct⟩ := zero_scaled ⟨exponent.natAbs, hexponent⟩
  have hpower := powerOfTen_exact ⟨exponent.natAbs, hexponent⟩
  simp only [Fin.getElem_fin] at hpower
  have hrounds : (exponent.natAbs - 1) / lastPower = 0 :=
    Nat.div_eq_of_lt (by rw [lastPower]; omega)
  have hlast : ¬ lastPower < exponent.natAbs := by rw [lastPower]; omega
  rw [Decimal.nearestFloat?] at h
  rcases Nat.eq_zero_or_pos significand with rfl | hpos
  · simp only [decide_true, Bool.true_or, if_true] at h
    obtain rfl := Option.some.inj h
    simp only [scale?, hrounds, hlast, if_false, divideRounds, Nat.zero_mul, Nat.sub_zero,
      hquotient,
      hproduct]
    split <;> rfl
  · have hfast : significand < 2 ^ 53 ∧ exponent.natAbs ≤ 22 := ⟨hsignificand, by omega⟩
    have hdigits := Decimal.digitCount_le_log2 hpos
    have hlog := (Nat.log2_lt hpos.ne').2 hsignificand
    have hlow : ¬ (Decimal.digitCount significand : Int) + exponent < -Decimal.horizon := by
      rw [Decimal.horizon]
      omega
    have hhigh : ¬ Decimal.horizon < (Decimal.digitCount significand : Int) + exponent := by
      rw [Decimal.horizon]
      omega
    simp only [Float.ofScientific, dif_pos hfast, hpos.ne', hlow, hhigh, decide_false, Bool.or_self,
      Bool.false_eq_true, if_false, decide_eq_true_eq] at h
    simp only [scale?, hrounds, hlast, if_false, divideRounds, Nat.zero_mul, Nat.sub_zero,
      ofNat_eq_toFloat hpos hsignificand, hpower]
    by_cases hdown : exponent < 0
    · simp only [if_pos hdown] at h ⊢
      split at h
      · cases h
      · exact h
    · simp only [if_neg hdown] at h ⊢
      exact h

/-- A numeral with few digits and a small exponent is taken for the float nearest to it. -/
theorem Numeral.take?_of_toFloat? {n : Numeral} {x : Float} (hsignificand : n.significand < 2 ^ 53)
    (hexponent : n.exponent.natAbs < 23) (h : n.toFloat? = some x) : n.take? = some x := by
  obtain ⟨magnitude, hnearest, rfl⟩ := Option.map_eq_some_iff.mp h
  have hbound : n.significand < naturalBound := hsignificand.trans (by decide)
  rw [take?, taken_of_lt hbound, scale?_of_nearest hsignificand hexponent hnearest, Option.map_some]

/-- A number is kept if its text has few digits and a small exponent. -/
theorem kept_of_short {x : Float} (hfinite : x.isFinite = true)
    (hsignificand : (floatNumeral x).significand < 2 ^ 53)
    (hexponent : (floatNumeral x).exponent.natAbs < 23) : Kept x :=
  kept_iff.mpr ⟨hfinite,
    Numeral.take?_of_toFloat? hsignificand hexponent (reads_numberText hfinite).2.1⟩

/-- The reader misses this number by one place. -/
example : (floatNumeral 31.245270191439438).take? = some 31.24527019143944 := by decide +kernel

end Json

/-! ## Whole numbers -/

namespace Decimal

open Json

/-- A search through the first numbers stops at the latest where it would succeed. -/
theorem findSome?_range_le {α : Type} {find : Nat → Option α} {last bound : Nat}
    (hlast : last < bound)
    (h : (find last).isSome = true) :
    ∃ first found, first ≤ last ∧ find first = some found ∧
      (List.range bound).findSome? find = some found := by
  cases hfound : (List.range bound).findSome? find with
  | none =>
    rw [List.findSome?_eq_none_iff.mp hfound last (List.mem_range.mpr hlast)] at h
    cases h
  | some found =>
    obtain ⟨before, first, behind, hrange, hfirst, hbefore⟩ := List.findSome?_eq_some_iff.mp hfound
    refine ⟨first, found, ?_, hfirst, rfl⟩
    by_contra hlt
    have hsorted : (before ++ first :: behind).Pairwise (· < ·) := hrange ▸ List.pairwise_lt_range
    have hmem : last ∈ before ++ first :: behind := hrange ▸ List.mem_range.mpr hlast
    rcases List.mem_append.mp hmem with hin | hin
    · rw [hbefore last hin] at h
      cases h
    · have hbehind := (List.pairwise_cons.mp (List.pairwise_append.mp hsorted).2.1).1
      rcases List.mem_cons.mp hin with rfl | hin
      · omega
      · have := hbehind last hin
        omega

section Whole

variable {b : Binary} {n shift : Nat} {tie : Tie}

/-- On the grid of whole numbers a whole number is a hit. -/
theorem hit_zero_isSome (tie : Tie) (hn : 0 < n) (hsignificand : b.significand = n * 2 ^ shift)
    (hexponent : b.exponent = -shift) : (b.hit tie 0).isSome = true := by
  have hup : b.scaleUp = 1 := by simp [Binary.scaleUp, hexponent]
  have hdown : b.scaleDown = 2 ^ shift := by simp [Binary.scaleDown, hexponent]
  have hpos : 0 < 4 * 2 ^ shift := by positivity
  have hvalue : b.interval.value = n * (4 * 2 ^ shift) := by
    simp only [Binary.interval, hsignificand]
    ring
  rw [Binary.hit, hup, hdown]
  simp only [Int.toNat_zero, Int.neg_zero, Nat.pow_eq, Nat.pow_zero, Nat.mul_one]
  have hbelow : b.interval.value * 1 / (4 * 2 ^ shift) = n := by
    rw [hvalue, Nat.mul_one, Nat.mul_div_cancel _ hpos]
  have hlow : b.interval.low < b.interval.value := by
    have hsig : 0 < b.significand := by rw [hsignificand]; positivity
    simp only [Binary.interval]
    split <;> omega
  have hhigh : b.interval.value < b.interval.high := by
    simp only [Binary.interval]
    omega
  refine Interval.hit_isSome tie hbelow (.inl (Interval.holds_iff.mpr ?_))
  rw [← hvalue, Nat.mul_one, Nat.mul_one]
  exact ⟨hlow.le, hhigh.le, fun _ => ⟨hlow, hhigh⟩⟩

/-- The fewest digits of a whole number make the number: nothing else that rounds to the same float
is whole. -/
theorem shortest_whole (tie : Tie) (hn : 0 < n) (hsmall : n < 10 ^ 16) (hshift : 4 ≤ shift)
    (hm : Canonical b.significand b.exponent) (hsignificand : b.significand = n * 2 ^ shift)
    (hexponent : b.exponent = -shift) :
    ∃ zeros : Nat, (b.shortest tie).unit = zeros ∧ (b.shortest tie).count * 10 ^ zeros = n := by
  have hup : b.scaleUp = 1 := by simp [Binary.scaleUp, hexponent]
  have hdown : b.scaleDown = 2 ^ shift := by simp [Binary.scaleDown, hexponent]
  have hpos : 0 < b.significand := by rw [hsignificand]; positivity
  -- the search reaches the grid of whole numbers
  obtain ⟨zeros, hzeros⟩ : ∃ zeros : Nat, (b.shortest tie).unit = zeros := by
    have hlead : leadingExponent (b.significand * b.scaleUp) b.scaleDown = digitCount n - 1 := by
      rw [leadingExponent, hup, hdown, hsignificand, Nat.mul_one,
        if_pos (Nat.le_mul_of_pos_left _ hn), Nat.mul_div_cancel _ (by positivity)]
    have hdigits := digitCount_pos n
    have hlast : digitCount n - 1 < 17 := by
      have hpow := (pow_digitCount_le hn).trans_lt hsmall
      have := (Nat.pow_lt_pow_iff_right (by decide : 1 < 10)).mp hpow
      omega
    have hzero : (digitCount n : Int) - 1 - (digitCount n - 1 : Nat) = 0 := by omega
    obtain ⟨first, found, hle, hfirst, hsearch⟩ := @findSome?_range_le Digits
      (fun more : Nat => (b.hit tie (digitCount n - 1 - more)).map fun count =>
        Digits.mk count (digitCount n - 1 - more)) _ _ hlast
      (by simp only [hzero, Option.isSome_map]; exact hit_zero_isSome tie hn hsignificand hexponent)
    obtain ⟨count, -, rfl⟩ := Option.map_eq_some_iff.mp hfirst
    refine ⟨digitCount n - 1 - first, ?_⟩
    simp only [Binary.shortest, hlead, hsearch, Option.getD_some]
    omega
  refine ⟨zeros, hzeros, ?_⟩
  have hrounds := Binary.shortest_rounds tie hm hpos
  rw [hzeros, hsignificand, hexponent] at hrounds
  obtain ⟨count, hcount⟩ : ∃ count, (b.shortest tie).count * 10 ^ zeros = count := ⟨_, rfl⟩
  have hvalue : ((b.shortest tie).count : ℚ) * 10 ^ (zeros : Int) = count := by
    rw [zpow_natCast]
    exact_mod_cast hcount
  rw [hcount]
  rw [hvalue] at hrounds
  have hscale : (2 : ℚ) ^ shift * 2 ^ (-shift : Int) = 1 := by
    rw [zpow_neg, zpow_natCast, mul_inv_cancel₀ (by positivity)]
  have hlast : (2 : ℚ) ^ (-shift : Int) ≤ 1 / 16 := by
    calc (2 : ℚ) ^ (-shift : Int) ≤ 2 ^ (-4 : Int) :=
          zpow_le_zpow_right₀ (by norm_num) (by omega)
      _ = 1 / 16 := by norm_num
  have hlow := hrounds.low
  have hhigh := hrounds.high
  -- both are whole numbers, and the interval around them is less than one wide
  have habove : (n : ℚ) < count + 1 := by
    have hquarters : (4 * n * 2 ^ shift - 2) * (2 : ℚ) ^ (-shift : Int) ≤ 4 * count := by
      refine le_trans (mul_le_mul_of_nonneg_right ?_ (by positivity)) hlow
      push_cast
      split <;> linarith
    nlinarith
  have hbelow : (count : ℚ) < n + 1 := by
    push_cast at hhigh
    nlinarith
  have habove' : n < count + 1 := by exact_mod_cast habove
  have hbelow' : count < n + 1 := by exact_mod_cast hbelow
  omega

end Whole

end Decimal

namespace Json

/-- Digits that end in front of the point are filled up with zeros. -/
theorem positional_of_le {digits : List Char} {leading : Int} (hleading : 0 ≤ leading)
    (h : digits.length ≤ leading + 1) : Decimal.positional digits leading =
      digits ++ List.replicate (leading.toNat + 1 - digits.length) '0' := by
  have hle : digits.length ≤ leading.toNat + 1 := by omega
  rw [Decimal.positional, if_neg (not_lt.mpr hleading)]
  simp only [List.drop_eq_nil_of_le hle, List.take_of_length_le hle]

/-- A whole number is written in digits that stand for it, with a zero behind the point. -/
theorem magnitudeText_whole {b : Decimal.Binary} {n shift : Nat} (hn : 0 < n) (hsmall : n < 10 ^ 16)
    (hshift : 4 ≤ shift) (hm : Decimal.Canonical b.significand b.exponent)
    (hsignificand : b.significand = n * 2 ^ shift) (hexponent : b.exponent = -shift) :
    ∃ whole, magnitudeText b = whole ++ ['.', '0'] ∧ Digital whole ∧
      hasLeadingZero whole = false ∧ digitsValue whole = n := by
  have hpos : b.significand ≠ 0 := by rw [hsignificand]; positivity
  obtain ⟨zeros, hunit, hvalue⟩ :=
    Decimal.shortest_whole .even hn hsmall hshift hm hsignificand hexponent
  obtain ⟨shown, hshown⟩ : ∃ shown, b.shortest .even = shown := ⟨_, rfl⟩
  rw [hshown] at hunit hvalue
  have hcount : 0 < shown.count := Nat.pos_of_ne_zero fun hzero => by simp [hzero] at hvalue; omega
  obtain ⟨hdigital, hhead⟩ := digital_significantDigits hcount
  obtain ⟨trailing, hdigits⟩ := toDigits_eq_significantDigits shown.count
  have hlength : Decimal.digitCount shown.count =
      (Decimal.significantDigits shown.count).length + trailing := by
    rw [Decimal.digitCount, hdigits, List.length_append, List.length_replicate]
  have hleading : shown.leading = Decimal.digitCount shown.count - 1 + zeros := by
    rw [Decimal.Digits.leading, hunit]
  have hfirst := Decimal.digitCount_pos shown.count
  have hlast : Decimal.digitCount shown.count - 1 + zeros < 16 := by
    have hlow : 10 ^ (Decimal.digitCount shown.count - 1 + zeros) < 10 ^ 16 := by
      rw [pow_add]
      exact (Nat.mul_le_mul_right _ (Decimal.pow_digitCount_le hcount)).trans_lt (hvalue ▸ hsmall)
    exact (Nat.pow_lt_pow_iff_right (by decide : 1 < 10)).mp hlow
  have htext : Decimal.positional (Decimal.significantDigits shown.count) shown.leading = _ :=
    positional_of_le (by omega) (by omega)
  have hdenotes := denotes_digits shown hcount
  obtain ⟨text, hpositional⟩ : ∃ text, Decimal.positional (Decimal.significantDigits shown.count)
      shown.leading = text := ⟨_, rfl⟩
  rw [hpositional] at htext hdenotes
  have hnone : '.' ∉ text := by
    intro hmem
    rw [htext] at hmem
    rcases List.mem_append.mp hmem with hmem | hmem
    · exact absurd (hdigital.digits _ hmem) (by decide)
    · exact absurd (List.eq_of_mem_replicate hmem) (by decide)
  obtain ⟨hall, hzero⟩ := digital_positional hdigital hhead (hpositional ▸ hnone)
  rw [hpositional] at hall hzero
  refine ⟨text, ?_, hall, hzero, ?_⟩
  · have hrange : positionalRange shown.leading = true := by
      simp only [positionalRange, Bool.and_eq_true, decide_eq_true_eq]
      omega
    rw [magnitudeText, if_neg hpos]
    simp only [hshown, hpositional, hrange, if_true, List.contains_iff_mem, hnone, if_false]
  · have hsame := hdenotes.eq_digitsValue hall hzero
    rw [hunit, zpow_natCast] at hsame
    have hsame' : shown.count * 10 ^ zeros = digitsValue text := by exact_mod_cast hsame
    rw [← hsame', hvalue]

/-- Whole numbers with less than 50 bits are kept. -/
theorem kept_ofNat {n : Nat} (hn : n < 2 ^ 49) : Kept (Float.ofNat n) := by
  rcases Nat.eq_zero_or_pos n with rfl | hpos
  · exact kept_iff.mpr (by decide +kernel)
  have hlarge : n < 2 ^ 53 := hn.trans (by decide)
  have hunpack := Decimal.unpack_ofNat_small hpos hlarge
  have hfinite : (Float.ofNat n).isFinite = true :=
    congrArg Float.Model.UnpackedFloat.isFinite hunpack
  rcases Decimal.unpack_of_isFinite hfinite with ⟨-, hsame⟩ | ⟨_, hm, -, hsame⟩
  · rw [hunpack] at hsame
    cases hsame
  rw [hunpack, Float.Model.UnpackedFloat.finite.injEq] at hsame
  obtain ⟨-, hsignificand, hexponent⟩ := hsame
  have hlog : n.log2 < 49 := (Nat.log2_lt hpos.ne').2 hn
  obtain ⟨whole, htext, hdigital, hzero, hvalue⟩ := magnitudeText_whole hpos
    (hn.trans (by decide)) (by omega : 4 ≤ 52 - n.log2) hm hsignificand.symm (by omega)
  have hfraction : Digital ['0'] := ⟨by simp, by simp⟩
  have hnumeral : floatNumeral (Float.ofNat n) =
      ⟨Decimal.isNegative (Float.ofNat n), n * 10, -1, 1, false⟩ := by
    rw [floatNumeral, htext, scanMagnitude_fraction hdigital hzero hfraction, digitsValue_append,
      hvalue]
    rfl
  refine kept_of_short hfinite ?_ ?_ <;> rw [hnumeral]
  · exact (by omega : n * 10 < 2 ^ 53)
  · exact (by decide : (-1 : Int).natAbs < 23)

end Json

end TypedRoutes
