import TypedRoutes.Proofs.Decimal.Fields
import TypedRoutes.Proofs.Decimal.Reading
import TypedRoutes.Proofs.Json.Documents
import TypedRoutes.Text.NumberLiteral

/-!
# Texts of numbers

Decimal digits with or without a point are scanned as the decimal they stand for, wherever the point
is. So the literal of a finite number is read as a decimal in its interval, which is read as the
number.
-/

namespace TypedRoutes

namespace Json

/-! ## Values of digits -/

/-- The value of digits is that in base ten. -/
theorem digitsValue_eq (cs : List Char) : digitsValue cs = Nat.ofDigitChars 10 cs 0 := by
  rw [digitsValue, Nat.ofDigitChars_eq_foldl]
  simp only [Nat.mul_comm 10]
  rfl

/-- Digits in front count for a power of ten more each. -/
theorem digitsValue_append (before behind : List Char) :
    digitsValue (before ++ behind) =
      digitsValue before * 10 ^ behind.length + digitsValue behind := by
  rw [digitsValue_eq, digitsValue_eq, digitsValue_eq, Nat.ofDigitChars_append,
    Nat.ofDigitChars_eq_ofDigitChars_zero, Nat.mul_comm]

/-- Zeros count for nothing. -/
theorem digitsValue_zeros (count : Nat) : digitsValue (List.replicate count '0') = 0 := by
  rw [digitsValue_eq, Nat.ofDigitChars_replicate_zero, Nat.mul_zero]

/-- The digits of a number have the number as their value. -/
theorem digitsValue_toDigits (n : Nat) : digitsValue (Nat.toDigits 10 n) = n := by
  rw [digitsValue_eq, Nat.ofDigitChars_toDigits (by decide) le_rfl]

/-- Decimal digits, at least one. -/
structure Digital (cs : List Char) : Prop where
  ne_nil : cs ≠ []
  digits : ∀ c ∈ cs, c.isDigit = true

/-- So many digits stay below the power of ten. -/
theorem digitsValue_lt {cs : List Char} (h : ∀ c ∈ cs, c.isDigit = true) :
    digitsValue cs < 10 ^ cs.length := by
  induction cs using List.reverseRecOn with
  | nil => decide
  | append_singleton cs c ih =>
    have hinit := ih fun d hd => h d (List.mem_append_left _ hd)
    have hlast : digitsValue [c] < 10 := by
      have hdigit := h c (by simp)
      simp only [Char.isDigit, ge_iff_le, Bool.and_eq_true, decide_eq_true_eq] at hdigit
      have hle : c.toNat ≤ 57 := hdigit.2
      change 0 * 10 + (c.toNat - 48) < 10
      omega
    rw [digitsValue_append, List.length_append, List.length_singleton, pow_succ]
    omega

/-! ## Scanning digits -/

/-- Digits are scanned up to where they end. -/
theorem withDigits_append_of_digital {cs rest : List Char} (h : Digital cs)
    (hrest : ∀ c ∈ rest.head?, c.isDigit = false) (next : List Char → List Char → Scan Numeral) :
    withDigits (cs ++ rest) next = next cs rest := by
  have htake : rest.takeWhile Char.isDigit = [] ∧ rest.dropWhile Char.isDigit = rest := by
    cases rest with
    | nil => exact ⟨rfl, rfl⟩
    | cons c rest => simp [hrest c rfl]
  have hdigits : (cs ++ rest).takeWhile Char.isDigit = cs := by
    rw [List.takeWhile_append_of_pos h.digits, htake.1, List.append_nil]
  have hothers : (cs ++ rest).dropWhile Char.isDigit = rest := by
    rw [List.dropWhile_append_of_pos h.digits, htake.2]
  rw [withDigits, hdigits, hothers]
  cases cs with
  | nil => exact absurd rfl h.ne_nil
  | cons digit digits => rfl

/-- Nothing but digits is read as a whole. -/
theorem withDigits_of_digital {cs : List Char} (h : Digital cs)
    (next : List Char → List Char → Scan Numeral) : withDigits cs next = next cs [] := by
  have hnone : ∀ c ∈ ([] : List Char).head?, c.isDigit = false := fun c hc => nomatch hc
  simpa using withDigits_append_of_digital h hnone next

variable {whole fraction : List Char} {negative : Bool}

/-- Digits alone are a whole numeral. -/
theorem scanMagnitude_whole (h : Digital whole) (hzero : hasLeadingZero whole = false) :
    scanMagnitude negative whole = .found ⟨negative, digitsValue whole, 0, 0, true⟩ [] := by
  rw [scanMagnitude, withDigits_of_digital h, hzero]
  rfl

/-- Digits with a point inside are a numeral with places. -/
theorem scanMagnitude_fraction (h : Digital whole) (hzero : hasLeadingZero whole = false)
    (hfraction : Digital fraction) :
    scanMagnitude negative (whole ++ '.' :: fraction) =
      .found ⟨negative, digitsValue (whole ++ fraction), -fraction.length, fraction.length, false⟩
        [] := by
  have hpoint : ∀ c ∈ ('.' :: fraction).head?, c.isDigit = false := by
    rintro c ⟨⟩
    rfl
  rw [scanMagnitude, withDigits_append_of_digital h hpoint, hzero]
  simp only [Bool.false_eq_true, if_false]
  rw [scanFraction?, withDigits_of_digital hfraction]
  rfl

/-- The text of a magnitude, without a sign, and its value. -/
def Denotes (cs : List Char) (v : ℚ) : Prop :=
  ∃ (significand : Nat) (exponent : Int) (places : Nat) (whole : Bool),
    significand * (10 : ℚ) ^ exponent = v ∧ ∀ negative,
      scanMagnitude negative cs = .found ⟨negative, significand, exponent, places, whole⟩ []

/-- Digits alone denote their value. -/
theorem denotes_whole (h : Digital whole) (hzero : hasLeadingZero whole = false) :
    Denotes whole (digitsValue whole) :=
  ⟨_, 0, 0, true, by simp, fun _ => scanMagnitude_whole h hzero⟩

/-- Digits with a point inside denote a fraction of their value. -/
theorem denotes_fraction (h : Digital whole) (hzero : hasLeadingZero whole = false)
    (hfraction : Digital fraction) :
    Denotes (whole ++ '.' :: fraction)
      (digitsValue (whole ++ fraction) * 10 ^ (-fraction.length : Int)) :=
  ⟨_, _, _, false, rfl, fun _ => scanMagnitude_fraction h hzero hfraction⟩

/-- The text of a magnitude starts with a digit. -/
theorem exists_cons_of_scan {cs rest : List Char} {numeral : Numeral}
    (h : scanMagnitude negative cs = .found numeral rest) :
    ∃ c more, cs = c :: more ∧ c.isDigit = true := by
  rw [scanMagnitude, withDigits] at h
  cases cs with
  | nil => cases h
  | cons c more =>
    refine ⟨c, more, rfl, ?_⟩
    by_contra hdigit
    rw [List.takeWhile_cons_of_neg hdigit] at h
    cases h

/-- A digit starts a number. -/
theorem scanToken_digit {c : Char} (h : c.isDigit = true) (rest : List Char) :
    scanToken c rest = numberToken (scanMagnitude false (c :: rest)) := by
  have hne (d : Char) (hd : d.isDigit = false) : c ≠ d := by
    rintro rfl
    rw [h] at hd
    cases hd
  rw [scanToken, if_neg (hne _ rfl), if_neg (hne _ rfl), if_neg (hne _ rfl), if_neg (hne _ rfl),
    if_neg (hne _ rfl), if_neg (hne _ rfl), if_neg (hne _ rfl), if_neg (hne _ rfl),
    if_neg (hne _ rfl), if_neg (hne _ rfl), if_neg (hne _ rfl), if_pos h]

/-- A magnitude with its sign is read as one number. -/
theorem reads_of_scan {cs : List Char} {numeral : Numeral}
    (h : scanMagnitude negative cs = .found numeral []) :
    Reads (Decimal.signed negative cs) (.number numeral) := by
  obtain ⟨c, rest, rfl, hdigit⟩ := exists_cons_of_scan h
  have hblank : isBlank c = false := by
    by_contra hblank
    simp only [isBlank, Bool.not_eq_false, Bool.or_eq_true, beq_iff_eq] at hblank
    rcases hblank with ((rfl | rfl) | rfl) | rfl <;> cases hdigit
  cases negative with
  | true =>
    have htoken : scanToken '-' (c :: rest) = numberToken (scanMagnitude true (c :: rest)) := rfl
    rw [Decimal.signed, if_pos rfl, Reads, tokens, if_neg (by decide), htoken, h]
    simp only [numberToken]
    rw [tokens]
    rfl
  | false =>
    rw [Decimal.signed, if_neg (by decide), Reads, tokens, if_neg (by simp [hblank]),
      scanToken_digit hdigit, h]
    simp only [numberToken]
    rw [tokens]
    rfl

/-- What denotes a value is read as a numeral of that value, with its sign. -/
theorem Denotes.reads {cs : List Char} {v : ℚ} (h : Denotes cs v) (negative : Bool) :
    ∃ (significand : Nat) (exponent : Int) (places : Nat) (whole : Bool),
      significand * (10 : ℚ) ^ exponent = v ∧ Reads (Decimal.signed negative cs)
        (.number ⟨negative, significand, exponent, places, whole⟩) := by
  obtain ⟨significand, exponent, places, whole, hvalue, hscan⟩ := h
  exact ⟨significand, exponent, places, whole, hvalue, reads_of_scan (hscan negative)⟩

/-! ## Laying out digits -/

/-- Digits have no zero in front that counts for nothing if they start with none. -/
theorem hasLeadingZero_of_head {cs : List Char} (h : cs.head? ≠ some '0') :
    hasLeadingZero cs = false := by
  unfold hasLeadingZero
  split
  · exact absurd rfl h
  · rfl

/-- The digits of a number are digits. -/
theorem digital_toDigits (n : Nat) : Digital (Nat.toDigits 10 n) :=
  ⟨Nat.toDigits_ne_nil, fun _ hc => Nat.isDigit_of_mem_toDigits (by decide) le_rfl hc⟩

/-- A positive number has no zero in front. -/
theorem head_toDigits {n : Nat} (hn : 0 < n) : (Nat.toDigits 10 n).head? ≠ some '0' := by
  intro hzero
  obtain ⟨rest, hrest⟩ : ∃ rest, Nat.toDigits 10 n = '0' :: rest := List.head?_eq_some_iff.mp hzero
  have hvalue : digitsValue rest = n := by
    have happend := digitsValue_append ['0'] rest
    rw [List.singleton_append, ← hrest, digitsValue_toDigits] at happend
    rw [happend]
    exact (Nat.zero_add _).symm.trans (congrArg (· + _) (Nat.zero_mul _).symm)
  have hlt : digitsValue rest < 10 ^ rest.length := by
    refine digitsValue_lt fun c hc => (digital_toDigits n).digits c ?_
    rw [hrest]
    exact List.mem_cons_of_mem _ hc
  have hle := Decimal.pow_digitCount_le hn
  rw [Decimal.digitCount, hrest, List.length_cons, Nat.add_sub_cancel] at hle
  omega

/-- They denote the number. -/
theorem denotes_toDigits (n : Nat) : Denotes (Nat.toDigits 10 n) n := by
  have hzero : hasLeadingZero (Nat.toDigits 10 n) = false := by
    rcases Nat.eq_zero_or_pos n with rfl | hn
    · rfl
    · exact hasLeadingZero_of_head (head_toDigits hn)
  have hdenotes := denotes_whole (digital_toDigits n) hzero
  rwa [digitsValue_toDigits] at hdenotes

theorem isDigit_zeros (count : Nat) : ∀ c ∈ List.replicate count '0', c.isDigit = true := by
  intro c hc
  rw [List.eq_of_mem_replicate hc]
  rfl

/-- Below one, zeros stand between the point and the digits. -/
theorem denotes_below {digits : List Char} (h : Digital digits) (zeros : Nat) :
    Denotes ('0' :: '.' :: (List.replicate zeros '0' ++ digits))
      (digitsValue digits * 10 ^ (-zeros - digits.length : Int)) := by
  have hfraction : Digital (List.replicate zeros '0' ++ digits) :=
    ⟨List.append_ne_nil_of_right_ne_nil _ h.ne_nil,
      List.forall_mem_append.mpr ⟨isDigit_zeros zeros, h.digits⟩⟩
  have hvalue : digitsValue (['0'] ++ (List.replicate zeros '0' ++ digits)) =
      digitsValue digits := by
    rw [digitsValue_append, digitsValue_append, digitsValue_zeros, Nat.zero_mul, Nat.zero_add]
    exact (congrArg (· + _) (Nat.zero_mul _)).trans (Nat.zero_add _)
  have hexponent : (-(List.replicate zeros '0' ++ digits).length : Int) =
      -zeros - digits.length := by
    rw [List.length_append, List.length_replicate]
    omega
  have hzero : Digital ['0'] := ⟨by simp, by simp⟩
  have hdenotes := denotes_fraction hzero rfl hfraction
  rwa [hvalue, hexponent] at hdenotes

/-- A whole number ends in zeros where its digits end before its last place. -/
theorem denotes_padded {digits : List Char} (h : Digital digits) (hzero : digits.head? ≠ some '0')
    (zeros : Nat) :
    Denotes (digits ++ List.replicate zeros '0') (digitsValue digits * 10 ^ (zeros : Int)) := by
  have hdigital : Digital (digits ++ List.replicate zeros '0') :=
    ⟨List.append_ne_nil_of_left_ne_nil h.ne_nil _,
      List.forall_mem_append.mpr ⟨h.digits, isDigit_zeros zeros⟩⟩
  have hhead : (digits ++ List.replicate zeros '0').head? ≠ some '0' := by
    rwa [List.head?_append_of_ne_nil _ h.ne_nil]
  have hvalue : ((digitsValue (digits ++ List.replicate zeros '0') : Nat) : ℚ) =
      digitsValue digits * 10 ^ (zeros : Int) := by
    rw [digitsValue_append, digitsValue_zeros, List.length_replicate, Nat.add_zero, zpow_natCast]
    push_cast
    rfl
  have hdenotes := denotes_whole hdigital (hasLeadingZero_of_head hhead)
  rwa [hvalue] at hdenotes

/-- Digits go on behind the point where there are more of them than places in front of it. -/
theorem denotes_split {digits : List Char} (h : Digital digits) (hzero : digits.head? ≠ some '0')
    {places : Nat} (hplaces : 0 < places) (hmore : places < digits.length) :
    Denotes (digits.take places ++ '.' :: digits.drop places)
      (digitsValue digits * 10 ^ (places - digits.length : Int)) := by
  obtain ⟨digit, rest, rfl⟩ := List.exists_cons_of_ne_nil h.ne_nil
  obtain ⟨others, rfl⟩ : ∃ others, places = others + 1 := ⟨places - 1, by omega⟩
  have hwhole : Digital ((digit :: rest).take (others + 1)) :=
    ⟨by simp, fun c hc => h.digits c (List.mem_of_mem_take hc)⟩
  have hfraction : Digital ((digit :: rest).drop (others + 1)) :=
    ⟨by simpa using hmore, fun c hc => h.digits c (List.mem_of_mem_drop hc)⟩
  have hexponent : (-((digit :: rest).drop (others + 1)).length : Int) =
      (others + 1 : Nat) - (digit :: rest).length := by
    rw [List.length_drop]
    omega
  have hdenotes := denotes_fraction hwhole (hasLeadingZero_of_head hzero) hfraction
  rwa [List.take_append_drop, hexponent] at hdenotes

/-- Digits are laid out as the decimal with the first one at its place. -/
theorem denotes_positional {digits : List Char} (h : Digital digits)
    (hzero : digits.head? ≠ some '0') (leading : Int) :
    Denotes (Decimal.positional digits leading)
      (digitsValue digits * 10 ^ (leading + 1 - digits.length)) := by
  rw [Decimal.positional]
  split
  · have hexponent : leading + 1 - digits.length =
        -((-leading - 1).toNat : Int) - digits.length := by omega
    rw [hexponent]
    exact denotes_below h _
  · obtain ⟨places, hplaces⟩ : ∃ places, leading.toNat + 1 = places := ⟨_, rfl⟩
    have hleading : leading + 1 = places := by omega
    simp only [hplaces, hleading]
    split
    · rename_i hnone
      rw [List.drop_eq_nil_iff] at hnone
      rw [List.take_of_length_le hnone]
      have hexponent : (places : Int) - digits.length = (places - digits.length : Nat) := by omega
      rw [hexponent]
      exact denotes_padded h hzero _
    · rename_i hsome
      have hmore : places < digits.length := by
        by_contra hnone
        exact hsome (List.drop_eq_nil_iff.mpr (not_lt.mp hnone))
      have hzeros : places - digits.length = 0 := by omega
      rw [hzeros, List.replicate_zero, List.append_nil]
      exact denotes_split h hzero (by omega) hmore

/-- Without the zeros at the end the other digits stand for a smaller number. -/
theorem toDigits_eq_significantDigits (n : Nat) : ∃ zeros, Nat.toDigits 10 n =
    Decimal.significantDigits n ++ List.replicate zeros '0' := by
  have hzeros : ∀ c ∈ (Nat.toDigits 10 n).reverse.takeWhile (· == '0'), c = '0' := by
    intro c hc
    simpa using List.mem_takeWhile_imp hc
  refine ⟨((Nat.toDigits 10 n).reverse.takeWhile (· == '0')).length, ?_⟩
  rw [Decimal.significantDigits, ← List.reverse_replicate, ← List.eq_replicate_of_mem hzeros,
    ← List.reverse_append, List.takeWhile_append_dropWhile, List.reverse_reverse]

/-- Significant digits are digits, and the first of them is no zero. -/
theorem digital_significantDigits {n : Nat} (hn : 0 < n) :
    Digital (Decimal.significantDigits n) ∧ (Decimal.significantDigits n).head? ≠ some '0' := by
  obtain ⟨zeros, hdigits⟩ := toDigits_eq_significantDigits n
  have hne : Decimal.significantDigits n ≠ [] := by
    intro hnil
    rw [hnil, List.nil_append] at hdigits
    have hvalue := digitsValue_toDigits n
    rw [hdigits, digitsValue_zeros] at hvalue
    omega
  refine ⟨⟨hne, fun c hc => (digital_toDigits n).digits c ?_⟩, ?_⟩
  · rw [hdigits]
    exact List.mem_append_left _ hc
  · have hhead := head_toDigits hn
    rwa [hdigits, List.head?_append_of_ne_nil _ hne] at hhead

/-- The zeros at the end of a decimal count as places. -/
theorem significantDigits_value (digits : Decimal.Digits) :
    (digitsValue (Decimal.significantDigits digits.count) : ℚ) *
        10 ^ (digits.leading + 1 - (Decimal.significantDigits digits.count).length) =
      digits.count * 10 ^ digits.unit := by
  obtain ⟨zeros, hdigits⟩ := toDigits_eq_significantDigits digits.count
  have hcount :
      digits.count = digitsValue (Decimal.significantDigits digits.count) * 10 ^ zeros := by
    have happend := digitsValue_append (Decimal.significantDigits digits.count)
      (List.replicate zeros '0')
    rwa [← hdigits, digitsValue_toDigits, digitsValue_zeros, List.length_replicate] at happend
  have hlength : Decimal.digitCount digits.count =
      (Decimal.significantDigits digits.count).length + zeros := by
    rw [Decimal.digitCount, hdigits, List.length_append, List.length_replicate]
  have hexponent : digits.leading + 1 - (Decimal.significantDigits digits.count).length =
      zeros + digits.unit := by
    rw [Decimal.Digits.leading, hlength]
    omega
  have hvalue : (digits.count : ℚ) =
      digitsValue (Decimal.significantDigits digits.count) * 10 ^ zeros := by
    exact_mod_cast hcount
  rw [hexponent, zpow_add₀ (by norm_num), zpow_natCast, ← mul_assoc, ← hvalue]

/-- A decimal is written by its digits without the zeros at the end. -/
theorem denotes_digits (digits : Decimal.Digits) (h : 0 < digits.count) :
    Denotes (Decimal.positional (Decimal.significantDigits digits.count) digits.leading)
      (digits.count * 10 ^ digits.unit) := by
  obtain ⟨hdigital, hhead⟩ := digital_significantDigits h
  rw [← significantDigits_value]
  exact denotes_positional hdigital hhead digits.leading

/-! ## Literals -/

/-- The literal of a number denotes a value that is rounded to it. -/
theorem denotes_magnitudeLiteral {b : Decimal.Binary}
    (hm : Decimal.Canonical b.significand b.exponent) (hpos : 0 < b.significand) :
    ∃ v, Denotes (magnitudeLiteral b) v ∧ Decimal.Rounds v b.significand b.exponent := by
  rw [magnitudeLiteral]
  split
  · rename_i hsmall
    obtain ⟨hwhole, -⟩ := Bool.and_eq_true_iff.mp hsmall
    refine ⟨_, denotes_toDigits b.floor, ?_⟩
    rw [Decimal.Binary.floor_of_isWhole hwhole]
    exact Decimal.rounds_self _ _
  · have hrounds := Decimal.Binary.shortest_rounds .up hm hpos
    have hcount : 0 < (b.shortest .up).count := by
      rcases Nat.eq_zero_or_pos (b.shortest .up).count with hzero | hcount
      · have hvalue := hrounds.pos hpos
        rw [hzero, Nat.cast_zero, zero_mul] at hvalue
        exact absurd hvalue (lt_irrefl 0)
      · exact hcount
    exact ⟨_, denotes_digits _ hcount, hrounds⟩

/-- The literal of zero denotes zero. -/
theorem denotes_magnitudeLiteral_zero {b : Decimal.Binary} (h : b.significand = 0) :
    Denotes (magnitudeLiteral b) 0 := by
  have hwhole : b.isWhole = true := by simp [Decimal.Binary.isWhole, h]
  have hfloor : b.floor = 0 := by simp [Decimal.Binary.floor, h]
  have hsmall : (b.isWhole && b.floor < wholeLiteralBound) = true := by
    rw [hwhole, hfloor]
    rfl
  rw [magnitudeLiteral, if_pos hsmall, hfloor]
  exact_mod_cast denotes_toDigits 0

/-- The literal of a finite number is its sign and its magnitude. -/
theorem numberLiteral_of_isFinite {x : Float} (h : x.isFinite = true) : numberLiteral x =
    String.ofList (Decimal.signed (Decimal.isNegative x)
      (magnitudeLiteral (Decimal.Binary.ofFloat x))) := by
  have hunpack : x.toModel.unpack.isFinite = true := h
  have hnan : x.isNaN = false := by
    change x.toModel.unpack.isNaN = false
    cases hx : x.toModel.unpack <;> rw [hx] at hunpack <;> first | rfl | cases hunpack
  have hinf : x.isInf = false := by
    change x.toModel.unpack.isInf = false
    cases hx : x.toModel.unpack <;> rw [hx] at hunpack <;> first | rfl | cases hunpack
  rw [numberLiteral, hnan, hinf]
  rfl

/-- The literal of a small natural number is its digits. -/
theorem numberLiteral_of_floor {x : Float} {n : Nat} (hfinite : x.isFinite = true)
    (hsign : Decimal.signOf x = .positive) (hn : n < 2 ^ 53)
    (hwhole : (Decimal.Binary.ofFloat x).isWhole = true)
    (hfloor : (Decimal.Binary.ofFloat x).floor = n) : numberLiteral x = Decimal.naturalText n := by
  have hbound : n < wholeLiteralBound := hn.trans (by decide)
  have hmagnitude : magnitudeLiteral (Decimal.Binary.ofFloat x) = Nat.toDigits 10 n := by
    rw [magnitudeLiteral, hwhole, hfloor, if_pos (by simp [hbound])]
  rw [numberLiteral_of_isFinite hfinite, Decimal.isNegative_eq_false hsign, hmagnitude]
  rfl

/-- A small whole number is written in its digits. -/
theorem numberLiteral_ofNat {n : Nat} (hn : n < 2 ^ 53) :
    numberLiteral (Float.ofNat n) = Decimal.naturalText n := by
  rcases Nat.eq_zero_or_pos n with rfl | hpos
  · have hunpack := Decimal.unpack_ofNat_zero
    have hfinite : (Float.ofNat 0).isFinite = true :=
      congrArg Float.Model.UnpackedFloat.isFinite hunpack
    rcases Decimal.unpack_of_isFinite hfinite with ⟨hzero, hsame⟩ | ⟨_, -, -, hsame⟩
    · rw [hunpack, Float.Model.UnpackedFloat.zero.injEq] at hsame
      exact numberLiteral_of_floor hfinite hsame.symm hn (by simp [Decimal.Binary.isWhole, hzero])
        (by simp [Decimal.Binary.floor, hzero])
    · rw [hunpack] at hsame
      cases hsame
  · have hunpack := Decimal.unpack_ofNat_small hpos hn
    have hfinite : (Float.ofNat n).isFinite = true :=
      congrArg Float.Model.UnpackedFloat.isFinite hunpack
    rcases Decimal.unpack_of_isFinite hfinite with ⟨-, hsame⟩ | ⟨_, -, -, hsame⟩
    · rw [hunpack] at hsame
      cases hsame
    · rw [hunpack, Float.Model.UnpackedFloat.finite.injEq] at hsame
      obtain ⟨hsign, hsignificand, hexponent⟩ := hsame
      have hlog : n.log2 < 53 := (Nat.log2_lt hpos.ne').2 hn
      obtain ⟨hwhole, hfloor⟩ := Decimal.Binary.floor_of_scaled hsignificand.symm (by omega)
      exact numberLiteral_of_floor hfinite hsign.symm hn hwhole hfloor

/-- The literal of a finite number is read back as the number. -/
theorem reads_numberLiteral {x : Float} (h : x.isFinite = true) :
    ∃ numeral read, Reads (numberLiteral x).toList (.number numeral) ∧
      numeral.toFloat? = some read ∧ (read == x) = true := by
  rw [numberLiteral_of_isFinite h, String.toList_ofList]
  rcases Decimal.unpack_of_isFinite h with ⟨hzero, hunpack⟩ | ⟨hpos, hm, hrange, hunpack⟩
  · obtain ⟨significand, exponent, places, whole, hvalue, hreads⟩ :=
      (denotes_magnitudeLiteral_zero hzero).reads (Decimal.isNegative x)
    have hsignificand : significand = 0 := by
      have hscale : (10 : ℚ) ^ exponent ≠ 0 := by positivity
      exact_mod_cast (mul_eq_zero.mp hvalue).resolve_right hscale
    subst hsignificand
    refine ⟨_, if Decimal.isNegative x then -0 else 0, hreads, rfl, ?_⟩
    rw [Decimal.beq_iff_compare, hunpack]
    cases Decimal.isNegative x <;> rfl
  · obtain ⟨v, hdenotes, hrounds⟩ := denotes_magnitudeLiteral hm hpos
    obtain ⟨significand, exponent, places, whole, rfl, hreads⟩ :=
      hdenotes.reads (Decimal.isNegative x)
    obtain ⟨value, hnearest, hread⟩ := hrounds.nearestFloat? hm hpos hrange
    refine ⟨_, if Decimal.isNegative x then -value else value, hreads, ?_, ?_⟩
    · rw [Numeral.toFloat?, hnearest]
      rfl
    · rw [Decimal.beq_iff_compare, hunpack, Decimal.signOf]
      cases Decimal.isNegative x with
      | false =>
        exact hread ▸ Decimal.compare_finite_self .positive _ _ hpos
      | true =>
        exact hm.unpack_neg hrange hread ▸ Decimal.compare_finite_self .negative _ _ hpos

end Json

end TypedRoutes
