import TypedRoutes.Proofs.Decimal.Scientific
import TypedRoutes.Decimal.Layout

/-!
# Digits that read back

The search for the fewest digits ends with a hit, at the latest with seventeen digits: there two
neighbours on the decimal grid are closer to each other than the ends of a float's interval. A hit
lies in the interval, so it is read as the float it was found for.
-/

namespace TypedRoutes.Decimal

open Float.Model (Format UnpackedFloat)

variable {n num den m : Nat} {e unit : Int}

/-! ## Counting digits -/

theorem digitCount_pos (n : Nat) : 0 < digitCount n := Nat.length_toDigits_pos

theorem lt_pow_digitCount (n : Nat) : n < 10 ^ digitCount n :=
  (Nat.length_toDigits_le_iff (by decide) (digitCount_pos n)).mp le_rfl

theorem pow_digitCount_le (hn : 0 < n) : 10 ^ (digitCount n - 1) ≤ n := by
  by_cases hone : digitCount n - 1 = 0
  · rw [hone]
    exact hn
  · by_contra hlt
    have hfewer : digitCount n ≤ digitCount n - 1 :=
      (Nat.length_toDigits_le_iff (by decide) (by omega)).mpr (not_le.mp hlt)
    omega

theorem digitCount_le_log2 (hn : 0 < n) : digitCount n - 1 ≤ n.log2 := by
  rw [Nat.le_log2 hn.ne']
  exact (Nat.pow_le_pow_left (by decide) _).trans (pow_digitCount_le hn)

theorem zpow_digitCount (hn : 0 < n) : (10 : ℚ) ^ ((digitCount n : Int) - 1) ≤ n ∧
    (n : ℚ) < 10 ^ (digitCount n : Int) := by
  have hcount := digitCount_pos n
  have hexponent : (digitCount n : Int) - 1 = (digitCount n - 1 : Nat) := by omega
  rw [hexponent, zpow_natCast, zpow_natCast]
  exact ⟨by exact_mod_cast pow_digitCount_le hn, by exact_mod_cast lt_pow_digitCount n⟩

/-- A fraction is at least the place value of its leading digit. -/
theorem zpow_leadingExponent_le (hnum : 0 < num) (hden : 0 < den) :
    (10 : ℚ) ^ leadingExponent num den ≤ num / den := by
  have hnum' : (0 : ℚ) < num := by exact_mod_cast hnum
  have hden' : (0 : ℚ) < den := by exact_mod_cast hden
  rw [leadingExponent]
  split
  · rename_i hle
    have hquotient : 0 < num / den := Nat.div_pos hle hden
    calc (10 : ℚ) ^ ((digitCount (num / den) : Int) - 1) ≤ (num / den : Nat) :=
          (zpow_digitCount hquotient).1
      _ ≤ num / den := Nat.cast_div_le
  · rename_i hlt
    -- The quotient the other way round, rounded up.
    obtain ⟨c, hc⟩ : ∃ c, (den + num - 1) / num = c + 2 := by
      have htwo : 2 ≤ (den + num - 1) / num := (Nat.le_div_iff_mul_le hnum).mpr (by omega)
      exact ⟨_, (Nat.sub_add_cancel htwo).symm⟩
    have habove : den ≤ (c + 2) * num := by
      have hmod := Nat.div_add_mod' (den + num - 1) num
      have hrest := Nat.mod_lt (den + num - 1) hnum
      rw [hc] at hmod
      omega
    have hcount : c + 2 ≤ 10 ^ digitCount (c + 1) := lt_pow_digitCount (c + 1)
    have hbound : den ≤ 10 ^ digitCount (c + 1) * num :=
      habove.trans (Nat.mul_le_mul_right _ hcount)
    have hbound' : (den : ℚ) ≤ 10 ^ digitCount (c + 1) * num := by exact_mod_cast hbound
    rw [hc, show c + 2 - 1 = c + 1 from rfl, zpow_neg, zpow_natCast, inv_le_comm₀ (by positivity)
      (by positivity), inv_div, div_le_iff₀ hnum']
    exact hbound'

/-! ## Hits -/

namespace Binary

variable {b : Binary} {tie : Tie} {count point : Nat}

/-- The scales of a binary and a decimal value. -/
theorem scale_ratio (b : Binary) (unit : Int) :
    ((4 * b.scaleDown * Nat.pow 10 unit.toNat : Nat) : ℚ) * 2 ^ b.exponent =
      4 * 10 ^ unit * (b.scaleUp * Nat.pow 10 (-unit).toNat : Nat) := by
  have htwo : (b.scaleDown : ℚ) * 2 ^ b.exponent = b.scaleUp := by
    rw [scaleDown, scaleUp, Nat.pow_eq, Nat.pow_eq]
    push_cast
    rw [← zpow_natCast, ← zpow_natCast, ← zpow_add₀ (by norm_num)]
    congr 1
    omega
  have hten : (10 : ℚ) ^ unit * (Nat.pow 10 (-unit).toNat : Nat) =
      (Nat.pow 10 unit.toNat : Nat) := by
    rw [Nat.pow_eq, Nat.pow_eq]
    push_cast
    rw [← zpow_natCast, ← zpow_natCast, ← zpow_add₀ (by norm_num)]
    congr 1
    omega
  push_cast at htwo hten ⊢
  rw [← htwo, ← hten]
  ring

theorem scaleUp_pos (b : Binary) : 0 < b.scaleUp := Nat.pow_pos (by decide)

theorem scaleDown_pos (b : Binary) : 0 < b.scaleDown := Nat.pow_pos (by decide)

/-- The exact value in quarters of the last place, on a decimal grid. -/
theorem value_eq (b : Binary) :
    ((b.significand * b.scaleUp : Nat) : ℚ) / b.scaleDown = b.significand * 2 ^ b.exponent := by
  have hratio := b.scale_ratio 0
  have hdown : (b.scaleDown : ℚ) ≠ 0 := by exact_mod_cast b.scaleDown_pos.ne'
  simp only [Int.toNat_zero, neg_zero, mul_one, zpow_zero] at hratio
  rw [div_eq_iff hdown]
  push_cast at hratio ⊢
  linear_combination (-(b.significand : ℚ) / 4) * hratio

/-- A point of a decimal grid compared with a bound in quarters of the last binary place. -/
theorem scale_compare (b : Binary) (unit : Int) (count bound : Nat) :
    (bound * (b.scaleUp * Nat.pow 10 (-unit).toNat) ≤
        count * (4 * b.scaleDown * Nat.pow 10 unit.toNat) ↔
      (bound : ℚ) * 2 ^ b.exponent ≤ 4 * (count * 10 ^ unit)) ∧
    (count * (4 * b.scaleDown * Nat.pow 10 unit.toNat) ≤
        bound * (b.scaleUp * Nat.pow 10 (-unit).toNat) ↔
      4 * (count * 10 ^ unit) ≤ (bound : ℚ) * 2 ^ b.exponent) := by
  have hratio := b.scale_ratio unit
  have hscale : 0 < b.scaleUp * Nat.pow 10 (-unit).toNat :=
    Nat.mul_pos b.scaleUp_pos (Nat.pow_pos (by decide))
  generalize b.scaleUp * Nat.pow 10 (-unit).toNat = binary at hratio hscale ⊢
  generalize 4 * b.scaleDown * Nat.pow 10 unit.toNat = decimal at hratio ⊢
  have hbinary : (0 : ℚ) < binary := by exact_mod_cast hscale
  have htwo : (0 : ℚ) < 2 ^ b.exponent := by positivity
  have hpoint : (4 * (count * 10 ^ unit) : ℚ) * binary =
      (count * decimal : Nat) * 2 ^ b.exponent := by
    push_cast
    linear_combination (-(count : ℚ)) * hratio
  have hbound : (bound * 2 ^ b.exponent : ℚ) * binary =
      (bound * binary : Nat) * 2 ^ b.exponent := by
    push_cast
    ring
  constructor
  · rw [← mul_le_mul_iff_left₀ hbinary, hpoint, hbound, mul_le_mul_iff_left₀ htwo, Nat.cast_le]
  · rw [← mul_le_mul_iff_left₀ hbinary, hpoint, hbound, mul_le_mul_iff_left₀ htwo, Nat.cast_le]

end Binary

/-- A point rounds to the float if it lies between the bounds, and strictly if they are open. -/
theorem Interval.holds_iff {i : Interval} {binaryScale point : Nat} :
    i.holds binaryScale point = true ↔
      i.low * binaryScale ≤ point ∧ point ≤ i.high * binaryScale ∧
        (i.closed = false → i.low * binaryScale < point ∧ point < i.high * binaryScale) := by
  rw [holds]
  cases i.closed with
  | true => simp
  | false =>
    simp only [Bool.false_eq_true, if_false, Bool.and_eq_true, decide_eq_true_eq, forall_const]
    constructor
    · intro h
      exact ⟨h.1.le, h.2.le, h⟩
    · intro h
      exact h.2.2

/-- What is chosen of two neighbours holds. -/
theorem Interval.hit_holds {i : Interval} {tie : Tie} {binaryScale decimalScale count : Nat}
    (h : i.hit tie binaryScale decimalScale = some count) :
    i.holds binaryScale (count * decimalScale) = true := by
  obtain ⟨below, hbelow⟩ : ∃ below, i.value * binaryScale / decimalScale = below := ⟨_, rfl⟩
  simp only [hit, hbelow] at h
  cases hdown : i.holds binaryScale (below * decimalScale) <;>
    cases hup : i.holds binaryScale ((below + 1) * decimalScale) <;>
    simp only [hdown, hup, Bool.and_self, Bool.and_true, Bool.and_false, Bool.false_eq_true,
      if_true, if_false] at h
  · cases h
  · cases h
    exact hup
  · cases h
    exact hdown
  · have hcount : count = below ∨ count = below + 1 := by
      split at h
      · exact .inl (Option.some.inj h).symm
      · split at h
        · exact .inr (Option.some.inj h).symm
        · cases tie with
          | up => exact .inr (Option.some.inj h).symm
          | even =>
            simp only at h
            split at h
            · exact .inl (Option.some.inj h).symm
            · exact .inr (Option.some.inj h).symm
    rcases hcount with rfl | rfl
    · exact hdown
    · exact hup

/-- There is a hit if one of the neighbours holds. -/
theorem Interval.hit_isSome {i : Interval} (tie : Tie) {binaryScale decimalScale below : Nat}
    (hbelow : i.value * binaryScale / decimalScale = below)
    (h : i.holds binaryScale (below * decimalScale) = true ∨
      i.holds binaryScale ((below + 1) * decimalScale) = true) :
    (i.hit tie binaryScale decimalScale).isSome = true := by
  simp only [hit, hbelow]
  cases hdown : i.holds binaryScale (below * decimalScale) <;>
    cases hup : i.holds binaryScale ((below + 1) * decimalScale)
  · rw [hdown, hup] at h
    simp at h
  · rfl
  · rfl
  · simp only [Bool.and_self, if_true]
    split
    · rfl
    · split
      · rfl
      · cases tie with
        | up => rfl
        | even =>
          simp only
          split <;> rfl

namespace Binary

variable {b : Binary} {tie : Tie} {count : Nat}

/-- The lower bound is nearer to the float where the next one below is only half a place away. -/
theorem interval_low_of (b : Binary) : b.interval.low =
    4 * b.significand - (if b.significand = 2 ^ 52 ∧ b.exponent ≠ -1074 then 1 else 2) := by
  have hiff : (decide (b.significand = fractionCount) && b.exponent != -1074) = true ↔
      b.significand = 2 ^ 52 ∧ b.exponent ≠ -1074 := by
    rw [Bool.and_eq_true, decide_eq_true_eq, bne_iff_ne]
    rfl
  by_cases hplace : b.significand = 2 ^ 52 ∧ b.exponent ≠ -1074
  · rw [if_pos hplace]
    exact if_pos (hiff.mpr hplace)
  · rw [if_neg hplace]
    exact if_neg (hiff.not.mpr hplace)

theorem interval_low (hpos : 0 < b.significand) : (b.interval.low : ℚ) =
    4 * b.significand - (if b.significand = 2 ^ 52 ∧ b.exponent ≠ -1074 then 1 else 2) := by
  rw [interval_low_of, Nat.cast_sub (by split <;> omega)]
  push_cast
  rfl

theorem interval_high (b : Binary) : (b.interval.high : ℚ) = 4 * b.significand + 2 := by
  rw [interval]
  push_cast
  rfl

/-- A hit lies in the interval of the float. -/
theorem hit_rounds (hpos : 0 < b.significand) (h : b.hit tie unit = some count) :
    Rounds (count * 10 ^ unit) b.significand b.exponent := by
  obtain ⟨hlow, hhigh, hopen⟩ := Interval.holds_iff.mp (Interval.hit_holds h)
  rw [(b.scale_compare unit count _).1, interval_low hpos] at hlow
  rw [(b.scale_compare unit count _).2, interval_high] at hhigh
  refine ⟨hlow, hhigh, fun hodd => ?_⟩
  obtain ⟨hbelow, habove⟩ := hopen (by simp [interval, hodd])
  have hplace : ¬ (b.significand = 2 ^ 52 ∧ b.exponent ≠ -1074) := by
    rintro ⟨hpower, -⟩
    omega
  rw [← not_le, (b.scale_compare unit count _).2, interval_low hpos, if_neg hplace,
    not_le] at hbelow
  rw [← not_le, (b.scale_compare unit count _).1, interval_high, not_le] at habove
  exact ⟨hbelow, habove⟩

/-- With seventeen digits two neighbours are close enough for one of them to be a hit. -/
theorem hit_isSome (tie : Tie) (hpos : 0 < b.significand) (hlt : b.significand < 2 ^ 53)
    (hunit : (10 : ℚ) ^ (unit + 16) ≤ b.significand * 2 ^ b.exponent) :
    (b.hit tie unit).isSome = true := by
  obtain ⟨m, hm⟩ : ∃ m, b.significand = m := ⟨_, rfl⟩
  have hratio := b.scale_ratio unit
  have hscale : 0 < b.scaleUp * Nat.pow 10 (-unit).toNat :=
    Nat.mul_pos b.scaleUp_pos (Nat.pow_pos (by decide))
  have hscale' : 0 < 4 * b.scaleDown * Nat.pow 10 unit.toNat :=
    Nat.mul_pos (Nat.mul_pos (by decide) b.scaleDown_pos) (Nat.pow_pos (by decide))
  rw [hit]
  generalize b.scaleUp * Nat.pow 10 (-unit).toNat = binary at hratio hscale ⊢
  generalize 4 * b.scaleDown * Nat.pow 10 unit.toNat = decimal at hratio hscale' ⊢
  rw [hm] at hpos hlt hunit
  have hspacing : 10 ^ 16 * decimal ≤ 4 * m * binary := by
    have htwo : (0 : ℚ) < 2 ^ b.exponent := by positivity
    have hbinary : (0 : ℚ) < binary := by exact_mod_cast hscale
    rw [zpow_add₀ (by norm_num)] at hunit
    have hproduct : ((10 ^ 16 * decimal : Nat) : ℚ) * 2 ^ b.exponent ≤
        (4 * m * binary : Nat) * 2 ^ b.exponent := by
      push_cast
      rw [mul_assoc, hratio]
      have hscaled :=
        mul_le_mul_of_nonneg_right hunit (mul_pos (by norm_num : (0 : ℚ) < 4) hbinary).le
      norm_num at hscaled ⊢
      linarith
    exact_mod_cast (mul_le_mul_iff_left₀ htwo).mp hproduct
  obtain ⟨below, hbelow⟩ : ∃ below, 4 * m * binary / decimal = below := ⟨_, rfl⟩
  have hdown : below * decimal ≤ 4 * m * binary := by
    rw [← hbelow]
    exact Nat.div_mul_le_self _ _
  have hup : 4 * m * binary < (below + 1) * decimal := by
    rw [← Nat.div_lt_iff_lt_mul hscale', hbelow]
    exact Nat.lt_succ_self below
  -- a step of the last digit is shorter than the interval, since `2 ^ 53` is below `10 ^ 16`
  have hclose : decimal < 4 * binary := by nlinarith
  have hlow : b.interval.low * binary + 2 * binary = 4 * m * binary ∨
      (b.interval.low * binary + binary = 4 * m * binary ∧ decimal < 2 * binary) := by
    rw [interval_low_of, hm]
    split
    · rename_i hplace
      obtain ⟨rfl, -⟩ := hplace
      omega
    · rw [← Nat.add_mul, Nat.sub_add_cancel (by omega)]
      exact .inl rfl
  have hhigh : b.interval.high * binary = 4 * m * binary + 2 * binary := by
    rw [← Nat.add_mul, ← hm]
    rfl
  have hnext : (below + 1) * decimal = below * decimal + decimal := Nat.succ_mul ..
  have hvalue : b.interval.value * binary / decimal = below := by
    rw [← hbelow, ← hm]
    rfl
  have hnear : b.interval.low * binary < below * decimal ∨
      (below + 1) * decimal < b.interval.high * binary := by
    omega
  refine Interval.hit_isSome tie hvalue ?_
  rw [Interval.holds_iff, Interval.holds_iff]
  omega

end Binary

end TypedRoutes.Decimal
