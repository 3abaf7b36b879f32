import TypedRoutes.Proofs.Decimal.Naturals
import TypedRoutes.Decimal.Nearest

/-!
# The interval of a float

The rationals that round to a float, and the ways in which a float is made from a decimal: products
and quotients of floats while both numbers are small, one product or quotient of large numbers
otherwise. All of them give the float whose interval holds the decimal.
-/

namespace TypedRoutes.Decimal

open Float.Model (Format UnpackedFloat totalExponent)
open Float.Model.UnpackedFloat

variable {sign : Sign} {m num den : Nat} {e E : Int} {v : ℚ}

/-- The rational rounds to the float with the given mantissa and exponent: it is half a place or
less away, a quarter below a power of two, and less than that if the mantissa is odd. -/
structure Rounds (v : ℚ) (m : Nat) (e : Int) : Prop where
  low : (4 * m - (if m = 2 ^ 52 ∧ e ≠ -1074 then 1 else 2)) * (2 : ℚ) ^ e ≤ 4 * v
  high : 4 * v ≤ (4 * m + 2) * (2 : ℚ) ^ e
  even : m % 2 = 1 → (4 * m - 2) * (2 : ℚ) ^ e < 4 * v ∧ 4 * v < (4 * m + 2) * (2 : ℚ) ^ e

/-- A float rounds to itself. -/
theorem rounds_self (m : Nat) (e : Int) : Rounds (m * 2 ^ e) m e := by
  have hscale : (0 : ℚ) < 2 ^ e := by positivity
  refine ⟨?_, by nlinarith, fun _ => ⟨by nlinarith, by nlinarith⟩⟩
  split <;> nlinarith

theorem Rounds.pos (h : Rounds v m e) (hm : 0 < m) : 0 < v := by
  have hscale : (0 : ℚ) < 2 ^ e := by positivity
  have hmantissa : (1 : ℚ) ≤ m := by exact_mod_cast hm
  have hlow := h.low
  split at hlow <;> nlinarith

/-- Comparing with a fraction in the place of a float is comparing whole numbers. -/
theorem scaled_compare {k : Nat} (hden : 0 < den) (c : ℚ) :
    (c * (2 : ℚ) ^ (E + k) ≤ 4 * ((num : ℚ) / den * 2 ^ E) ↔ c * (den * 2 ^ k) ≤ 4 * num) ∧
      (c * (2 : ℚ) ^ (E + k) < 4 * ((num : ℚ) / den * 2 ^ E) ↔ c * (den * 2 ^ k) < 4 * num) ∧
      (4 * ((num : ℚ) / den * 2 ^ E) ≤ c * (2 : ℚ) ^ (E + k) ↔ 4 * num ≤ c * (den * 2 ^ k)) ∧
      (4 * ((num : ℚ) / den * 2 ^ E) < c * (2 : ℚ) ^ (E + k) ↔ 4 * num < c * (den * 2 ^ k)) := by
  have hden' : (0 : ℚ) < den := by exact_mod_cast hden
  have hfactor : (0 : ℚ) < den / 2 ^ E := by positivity
  have hbound : c * (den * 2 ^ k) = c * (2 : ℚ) ^ (E + k) * (den / 2 ^ E) := by
    rw [zpow_add₀ (by norm_num), zpow_natCast]
    field_simp
  have hvalue : (4 * num : ℚ) = 4 * ((num : ℚ) / den * 2 ^ E) * (den / 2 ^ E) := by
    field_simp
  rw [hbound, hvalue]
  exact ⟨(mul_le_mul_iff_left₀ hfactor).symm, (mul_lt_mul_iff_left₀ hfactor).symm,
    (mul_le_mul_iff_left₀ hfactor).symm, (mul_lt_mul_iff_left₀ hfactor).symm⟩

/-- The same interval in whole numbers, over a common denominator. -/
theorem Rounds.roundsTo {k : Nat} (hm : 0 < m) (hden : 0 < den)
    (h : Rounds ((num : ℚ) / den * 2 ^ E) m (E + k)) :
    RoundsTo num (den * 2 ^ k) m (E + k) := by
  have hsub (c : Nat) (hc : c ≤ 2) : ((4 * m - c : Nat) : ℚ) = 4 * m - c := by
    push_cast [Nat.cast_sub (by omega : c ≤ 4 * m)]
    ring
  obtain ⟨hlow, hhigh, heven⟩ := h
  refine ⟨?_, ?_, fun hodd => ?_⟩
  · have hwhole := (scaled_compare hden _).1.mp hlow
    split at hwhole <;> rename_i hplace
    · rw [if_pos hplace]
      have hcast := hsub 1 (by omega)
      rw [Nat.cast_one] at hcast
      rw [← hcast] at hwhole
      exact_mod_cast hwhole
    · rw [if_neg hplace]
      have hcast := hsub 2 le_rfl
      rw [Nat.cast_ofNat] at hcast
      rw [← hcast] at hwhole
      exact_mod_cast hwhole
  · have hwhole := (scaled_compare hden _).2.2.1.mp hhigh
    exact_mod_cast hwhole
  · obtain ⟨hbelow, habove⟩ := heven hodd
    have hwhole := (scaled_compare hden _).2.1.mp hbelow
    have hwhole' := (scaled_compare hden _).2.2.2.mp habove
    have hcast := hsub 2 le_rfl
    rw [Nat.cast_ofNat] at hcast
    rw [← hcast] at hwhole
    exact ⟨by exact_mod_cast hwhole, by exact_mod_cast hwhole'⟩

/-- A fraction that is given with enough places is not below the interval's place. -/
theorem Rounds.exponent_le (hm : Canonical m e) (hden : 0 < den)
    (h : Rounds ((num : ℚ) / den * 2 ^ E) m e)
    (hE : E ≤ Format.binary64.targetExponent (totalExponent (num / den) E)) : E ≤ e := by
  by_contra hlt
  obtain ⟨j, hj⟩ : ∃ j : Nat, E = e + (j + 1) := ⟨(E - e - 1).toNat, by omega⟩
  have hexponent := hm.exponent
  have hlt := hm.lt
  have hden' : (0 : ℚ) < den := by exact_mod_cast hden
  have hlog : 52 ≤ (num / den).log2 := by
    rw [targetExponent_eq, totalExponent] at hE
    omega
  have hquotient : 2 ^ 52 ≤ num / den := by
    have hne : num / den ≠ 0 := by
      intro hzero
      rw [hzero] at hlog
      exact absurd hlog (by decide)
    exact le_trans (Nat.pow_le_pow_right (by decide) hlog) (Nat.log2_self_le hne)
  have hnum : (2 ^ 52 : ℚ) ≤ num / den := by
    rw [le_div_iff₀ hden']
    exact_mod_cast (Nat.le_div_iff_mul_le hden).mp hquotient
  have hplace : (2 : ℚ) * 2 ^ e ≤ 2 ^ E := by
    rw [← zpow_one_add₀ (by norm_num)]
    exact zpow_le_zpow_right₀ (by norm_num) (by omega)
  have hmantissa : (m : ℚ) ≤ 2 ^ 53 - 1 := by
    have hle : m + 1 ≤ 2 ^ 53 := hlt
    have hcast : ((m + 1 : Nat) : ℚ) ≤ 2 ^ 53 := by exact_mod_cast hle
    push_cast at hcast
    linarith
  have hscale : (0 : ℚ) < 2 ^ e := by positivity
  have hhigh := h.high
  have hbig : (2 : ℚ) ^ 52 * (2 * 2 ^ e) ≤ num / den * 2 ^ E :=
    mul_le_mul hnum hplace (by positivity) (by positivity)
  nlinarith

/-- A rational in the interval of a float rounds to it. -/
theorem Rounds.roundWithAccuracy (hm : Canonical m e) (hpos : 0 < m) (hden : 0 < den)
    (h : Rounds ((num : ℚ) / den * 2 ^ E) m e)
    (hE : E ≤ Format.binary64.targetExponent (totalExponent (num / den) E)) :
    roundWithAccuracy Format.binary64 sign (num / den) E (accuracyOfFraction (num % den) den) =
      .finite sign m e hpos := by
  obtain ⟨k, rfl⟩ : ∃ k : Nat, e = E + k := by
    have hle := h.exponent_le hm hden hE
    exact ⟨(e - E).toNat, by omega⟩
  exact (h.roundsTo hpos hden).roundWithAccuracy hden hm hpos hE

/-! ## Products and quotients -/

variable {s₁ s₂ : Sign} {m₁ m₂ : Nat} {e₁ e₂ : Int}

/-- A product that has enough places is rounded to the float whose interval holds it. -/
theorem Rounds.mul (hm : Canonical m e) (hpos : 0 < m) (h₁ : 0 < m₁) (h₂ : 0 < m₂)
    (h : Rounds (m₁ * 2 ^ e₁ * (m₂ * 2 ^ e₂)) m e)
    (hE : e₁ + e₂ ≤ Format.binary64.targetExponent (totalExponent (m₁ * m₂) (e₁ + e₂))) :
    mul Format.binary64 (.finite s₁ m₁ e₁ h₁) (.finite s₂ m₂ e₂ h₂) =
      .finite (s₁ * s₂) m e hpos := by
  have hvalue : ((m₁ * m₂ : Nat) : ℚ) / (1 : Nat) * 2 ^ (e₁ + e₂) =
      m₁ * 2 ^ e₁ * (m₂ * 2 ^ e₂) := by
    rw [zpow_add₀ (by norm_num)]
    push_cast
    ring
  rw [← hvalue] at h
  have hround : Float.Model.UnpackedFloat.roundWithAccuracy Format.binary64 (s₁ * s₂)
      (m₁ * m₂ / 1) (e₁ + e₂) (accuracyOfFraction (m₁ * m₂ % 1) 1) = .finite (s₁ * s₂) m e hpos :=
    h.roundWithAccuracy hm hpos Nat.one_pos (by rwa [Nat.div_one])
  rw [Nat.div_one, Nat.mod_one] at hround
  exact hround

theorem targetExponent_mono {a b : Int} (h : a ≤ b) :
    Format.binary64.targetExponent a ≤ Format.binary64.targetExponent b := by
  rw [targetExponent_eq, targetExponent_eq]
  omega

/-- A quotient of whole numbers has about as many bits as the difference of theirs. -/
theorem log2_div_ge (num : Nat) (hden : 0 < den) :
    (num.log2 : Int) - den.log2 - 1 ≤ ((num / den).log2 : Int) := by
  by_cases hnum : num.log2 ≤ den.log2
  · omega
  · have hne : num ≠ 0 := by
      rintro rfl
      exact hnum (by simp)
    have hquotient : 2 ^ (num.log2 - den.log2 - 1) ≤ num / den := by
      rw [Nat.le_div_iff_mul_le hden]
      calc 2 ^ (num.log2 - den.log2 - 1) * den
          ≤ 2 ^ (num.log2 - den.log2 - 1) * 2 ^ (den.log2 + 1) :=
            Nat.mul_le_mul_left _ (Nat.lt_log2_self).le
        _ = 2 ^ num.log2 := by rw [← Nat.pow_add]; congr 1; omega
        _ ≤ num := Nat.log2_self_le hne
    have hpositive : num / den ≠ 0 := by
      have := Nat.two_pow_pos (num.log2 - den.log2 - 1)
      omega
    have := (Nat.le_log2 hpositive).mpr hquotient
    omega

/-- A quotient is rounded to the float whose interval holds it. -/
theorem Rounds.div (hm : Canonical m e) (hpos : 0 < m) (h₁ : 0 < m₁) (h₂ : 0 < m₂)
    (h : Rounds (m₁ * 2 ^ e₁ / (m₂ * 2 ^ e₂)) m e) :
    div Format.binary64 (.finite s₁ m₁ e₁ h₁) (.finite s₂ m₂ e₂ h₂) =
      .finite (s₁ / s₂) m e hpos := by
  obtain ⟨E, hEdef⟩ : ∃ E, min (e₁ - e₂)
      (Format.binary64.targetExponent (totalExponent m₁ e₁ - totalExponent m₂ e₂)) = E := ⟨_, rfl⟩
  obtain ⟨k, hk⟩ : ∃ k : Nat, e₁ - e₂ = E + k := ⟨(e₁ - e₂ - E).toNat, by omega⟩
  have hshift : (e₁ - e₂ - E).toNat = k := by omega
  have hvalue : ((m₁ * 2 ^ k : Nat) : ℚ) / m₂ * 2 ^ E = m₁ * 2 ^ e₁ / (m₂ * 2 ^ e₂) := by
    have hpower : (2 : ℚ) ^ e₁ = 2 ^ k * 2 ^ E * 2 ^ e₂ := by
      rw [← zpow_natCast, ← zpow_add₀ (by norm_num), ← zpow_add₀ (by norm_num)]
      congr 1
      omega
    have hscale : (2 : ℚ) ^ e₂ ≠ 0 := by positivity
    push_cast
    rw [hpower, mul_div_mul_comm, mul_div_assoc]
    field_simp
  rw [← hvalue] at h
  have hE : E ≤ Format.binary64.targetExponent (totalExponent (m₁ * 2 ^ k / m₂) E) := by
    have hlog := log2_div_ge (m₁ * 2 ^ k) h₂
    rw [log2_mul_two_pow h₁] at hlog
    have htotal : totalExponent m₁ e₁ - totalExponent m₂ e₂ ≤
        totalExponent (m₁ * 2 ^ k / m₂) E := by
      rw [totalExponent, totalExponent, totalExponent]
      push_cast at hlog
      omega
    have := targetExponent_mono htotal
    omega
  have hround : Float.Model.UnpackedFloat.roundWithAccuracy Format.binary64 (s₁ / s₂) _ E _ =
      .finite (s₁ / s₂) m e hpos := h.roundWithAccuracy hm hpos h₂ hE
  have hcore : divCore Format.binary64 m₁ e₁ m₂ e₂ =
      (m₁ * 2 ^ k / m₂, E, accuracyOfFraction (m₁ * 2 ^ k % m₂) m₂) := by
    rw [divCore]
    simp only [hEdef, hshift, Nat.shiftLeft_eq]
  rw [Float.Model.UnpackedFloat.div, hcore]
  exact hround

/-! ## Decimals -/

variable {count n : Nat} {unit : Int}

/-- Large decimals are made by one product or quotient of whole numbers. -/
theorem Rounds.ofScientific (hm : Canonical m e) (hpos : 0 < m) (hcount : 0 < count)
    (hhigh : unit ≤ 2048) (hlow : -(2048 + (count.log2 : Int)) ≤ unit)
    (h : Rounds (count * 10 ^ unit) m e) :
    ofScientific Format.binary64 count unit = .finite .positive m e hpos := by
  have hbits : ((2 : Int) ^ Format.binary64.exponentBits) = 2048 := rfl
  rw [Float.Model.UnpackedFloat.ofScientific, dif_neg hcount.ne', if_neg (by rw [hbits]; omega),
    if_neg (by rw [hbits]; omega)]
  split
  · rename_i hunit
    have hvalue : ((count <<< 53 : Nat) : ℚ) * 2 ^ (-53 : Int) *
        ((10 ^ unit.toNat : Nat) * 2 ^ (0 : Int)) = count * 10 ^ unit := by
      have hpower : (10 : ℚ) ^ unit = 10 ^ unit.toNat := by
        rw [← zpow_natCast, Int.toNat_of_nonneg hunit]
      have hplaces : (2 : ℚ) ^ (-53 : Int) = (2 ^ 53)⁻¹ := by
        rw [zpow_neg]
        norm_num
      rw [hpower, hplaces, Nat.shiftLeft_eq]
      push_cast
      field_simp
      norm_num
    have hlog : 53 ≤ ((count <<< 53) * 10 ^ unit.toNat).log2 := by
      have hproduct : 0 < count * 10 ^ unit.toNat := by positivity
      rw [Nat.shiftLeft_eq, Nat.mul_right_comm, log2_mul_two_pow hproduct]
      omega
    refine Rounds.mul hm hpos _ _ ?_ ?_
    · have hgoal := h
      rw [← hvalue] at hgoal
      exact hgoal
    · have hplaces : Format.binary64.mantissaBits = 53 := rfl
      rw [targetExponent_eq, totalExponent, hplaces]
      omega
  · rename_i hunit
    have hvalue : (count : ℚ) * 2 ^ (0 : Int) / ((10 ^ (-unit).toNat : Nat) * 2 ^ (0 : Int)) =
        count * 10 ^ unit := by
      have hpower : (10 : ℚ) ^ unit = (10 ^ (-unit).toNat)⁻¹ := by
        rw [← zpow_natCast, ← zpow_neg, Int.toNat_of_nonneg (by omega), neg_neg]
      rw [hpower]
      push_cast
      simp [div_eq_mul_inv]
    refine Rounds.div hm hpos _ _ ?_
    rwa [hvalue]

/-- Whether a float is a power of ten, with its leading bit in place. -/
def isPowerOfTen (n : Nat) : UnpackedFloat → Bool
  | .finite .positive p x _ =>
    4503599627370496 ≤ p && p * Nat.pow 2 x.toNat == Nat.pow 10 n * Nat.pow 2 (-x).toNat
  | _ => false

theorem isPowerOfTen_table : ∀ n : Fin Float.exactlyRepresentablePowersOfTen.size,
    isPowerOfTen n (Float.exactlyRepresentablePowersOfTen[n]).toModel.unpack = true := by
  decide +kernel

theorem eq_of_isPowerOfTen {x : UnpackedFloat} (h : isPowerOfTen n x = true) :
    ∃ p k hp, x = .finite .positive p k hp ∧ 2 ^ 52 ≤ p ∧ (p : ℚ) * 2 ^ k = 10 ^ n := by
  cases x with
  | finite sign p k hp =>
    cases sign with
    | positive =>
      simp only [isPowerOfTen, Bool.and_eq_true, decide_eq_true_eq, beq_iff_eq] at h
      refine ⟨p, k, hp, rfl, by simpa using h.1, ?_⟩
      have hscaled : (p : ℚ) * 2 ^ k.toNat = 10 ^ n * 2 ^ (-k).toNat := by exact_mod_cast h.2
      have hpower : (2 : ℚ) ^ k.toNat = 2 ^ k * 2 ^ (-k).toNat := by
        rw [← zpow_natCast, ← zpow_natCast, ← zpow_add₀ (by norm_num)]
        congr 1
        omega
      have hne : (2 : ℚ) ^ (-k).toNat ≠ 0 := by positivity
      rw [hpower, ← mul_assoc] at hscaled
      exact mul_right_cancel₀ hne hscaled
    | negative => cases h
  | _ => cases h

theorem value_of_word (n : Nat) (hlog : n.log2 < 53) :
    ((n * 2 ^ (52 - n.log2) : Nat) : ℚ) * 2 ^ ((n.log2 : Int) - 52) = n := by
  have hpower : (2 : ℚ) ^ (52 - n.log2) * 2 ^ ((n.log2 : Int) - 52) = 1 := by
    rw [← zpow_natCast, ← zpow_add₀ (by norm_num)]
    have hzero : ((52 - n.log2 : Nat) : Int) + (n.log2 - 52) = 0 := by omega
    rw [hzero, zpow_zero]
  push_cast
  rw [mul_assoc, hpower, mul_one]

/-- Small decimals are made by one product or quotient of floats. -/
theorem Rounds.unpack_ofScientific_small (hm : Canonical m e) (hpos : 0 < m) (hrange : e ≤ 971)
    (hcount : 0 < count) (hsmall : count < 2 ^ 53 ∧ unit.natAbs ≤ 22)
    (h : Rounds (count * 10 ^ unit) m e) :
    (Float.ofScientific count (unit < 0) unit.natAbs).toModel.unpack =
      .finite .positive m e hpos := by
  have hlog : count.log2 < 53 := (Nat.log2_lt hcount.ne').2 hsmall.1
  have hlt : unit.natAbs < Float.exactlyRepresentablePowersOfTen.size := by
    have hsize : Float.exactlyRepresentablePowersOfTen.size = 23 := rfl
    omega
  obtain ⟨ten, hten⟩ : ∃ ten, Float.exactlyRepresentablePowersOfTen[unit.natAbs] = ten := ⟨_, rfl⟩
  obtain ⟨p, k, hp, htable, hlow, hpower⟩ :
      ∃ p k hp, ten.toModel.unpack = .finite .positive p k hp ∧
      2 ^ 52 ≤ p ∧ (p : ℚ) * 2 ^ k = 10 ^ unit.natAbs :=
    eq_of_isPowerOfTen (hten ▸ isPowerOfTen_table ⟨unit.natAbs, hlt⟩)
  -- word and power are both exact, so that the product or the quotient rounds only once
  have hcanonical := canonical_ofNat hcount hsmall.1
  have hword := value_of_word count hlog
  simp only [Float.ofScientific, dif_pos hsmall, hten]
  by_cases hunit : unit < 0
  · rw [if_pos (by simpa using hunit)]
    have hquotient : Float.Model.UnpackedFloat.div Format.binary64
        count.toUInt64.toFloat.toModel.unpack ten.toModel.unpack = .finite .positive m e hpos := by
      rw [unpack_toFloat hcount hsmall.1, htable]
      refine Rounds.div hm hpos _ hp ?_
      have hinverse : (10 : ℚ) ^ unit = (10 ^ unit.natAbs)⁻¹ := by
        rw [← zpow_natCast, ← zpow_neg]
        congr 1
        omega
      rw [hword, hpower, div_eq_mul_inv, ← hinverse]
      exact h
    change unpack Format.binary64 (pack Format.binary64 (Float.Model.UnpackedFloat.div
      Format.binary64 count.toUInt64.toFloat.toModel.unpack ten.toModel.unpack)) = _
    rw [hquotient]
    exact hm.unpack_pack hpos hrange
  · rw [if_neg (by simpa using hunit)]
    have hproduct : Float.Model.UnpackedFloat.mul Format.binary64
        count.toUInt64.toFloat.toModel.unpack ten.toModel.unpack = .finite .positive m e hpos := by
      rw [unpack_toFloat hcount hsmall.1, htable]
      refine Rounds.mul hm hpos _ hp ?_ ?_
      · have hpositive : (10 : ℚ) ^ unit = 10 ^ unit.natAbs := by
          rw [← zpow_natCast]
          congr 1
          omega
        rw [hword, hpower, ← hpositive]
        exact h
      · have hbits : 2 ^ 104 ≤ count * 2 ^ (52 - count.log2) * p := by
          have hleading := hcanonical.ge.resolve_right (by omega)
          calc 2 ^ 104 = 2 ^ 52 * 2 ^ 52 := by norm_num
            _ ≤ count * 2 ^ (52 - count.log2) * p := Nat.mul_le_mul hleading hlow
        have hlarge := (Nat.le_log2 (by positivity)).mpr hbits
        rw [targetExponent_eq, totalExponent]
        omega
    change unpack Format.binary64 (pack Format.binary64 (Float.Model.UnpackedFloat.mul
      Format.binary64 count.toUInt64.toFloat.toModel.unpack ten.toModel.unpack)) = _
    rw [hproduct]
    exact hm.unpack_pack hpos hrange

/-- A decimal in the interval of a float is made into that float. -/
theorem Rounds.unpack_ofScientific (hm : Canonical m e) (hpos : 0 < m) (hrange : e ≤ 971)
    (hcount : 0 < count) (hhigh : unit ≤ 2048) (hlow : -(2048 + (count.log2 : Int)) ≤ unit)
    (h : Rounds (count * 10 ^ unit) m e) :
    (Float.ofScientific count (unit < 0) unit.natAbs).toModel.unpack =
      .finite .positive m e hpos := by
  by_cases hsmall : count < 2 ^ 53 ∧ unit.natAbs ≤ 22
  · exact h.unpack_ofScientific_small hm hpos hrange hcount hsmall
  · have hexponent : (if (decide (unit < 0)) = true then Int.negOfNat unit.natAbs
        else Int.ofNat unit.natAbs) = unit := by
      split <;> rename_i hunit <;> rw [decide_eq_true_eq] at hunit
      · rw [Int.negOfNat_eq]
        simp only [Int.ofNat_eq_natCast]
        omega
      · simp only [Int.ofNat_eq_natCast]
        omega
    simp only [Float.ofScientific, dif_neg hsmall, hexponent]
    change unpack Format.binary64 (pack Format.binary64
      (Float.Model.UnpackedFloat.ofScientific Format.binary64 count unit)) = _
    rw [h.ofScientific hm hpos hcount hhigh hlow]
    exact hm.unpack_pack hpos hrange

end TypedRoutes.Decimal
