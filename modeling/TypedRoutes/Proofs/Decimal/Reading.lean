import TypedRoutes.Proofs.Decimal.Digits

/-!
# Decimals that are read back

A decimal in the interval of a float is read as that float: it is neither beyond the horizon of the
reader nor too large. The fewest digits of a float are such a decimal, and so is a whole float
written with all its digits.
-/

namespace TypedRoutes.Decimal

open Float.Model (Format UnpackedFloat)

variable {m significand : Nat} {e exponent : Int} {v : ℚ}

theorem two_pow_le_ten_pow (n : Nat) : (2 : ℚ) ^ (3 * n) ≤ 10 ^ n := by
  rw [pow_mul]
  exact pow_le_pow_left₀ (by norm_num) (by norm_num) n

theorem ten_zpow_neg_le (n : Nat) : (10 : ℚ) ^ (-n : Int) ≤ 2 ^ (-(3 * n : Nat) : Int) := by
  rw [zpow_neg, zpow_neg, zpow_natCast, zpow_natCast]
  exact inv_anti₀ (by positivity) (two_pow_le_ten_pow n)

theorem Rounds.lower (h : Rounds v m e) (hm : Canonical m e) (hpos : 0 < m) :
    (10 : ℚ) ^ (-400 : Int) < v := by
  have hmantissa : (1 : ℚ) ≤ m := by exact_mod_cast hpos
  have hplaces : (2 : ℚ) ≤ 4 * m - (if m = 2 ^ 52 ∧ e ≠ -1074 then 1 else 2) := by
    split <;> linarith
  have hscale : (2 : ℚ) ^ (-1074 : Int) ≤ 2 ^ e := zpow_le_zpow_right₀ (by norm_num) hm.exponent
  have hvalue : 2 * (2 : ℚ) ^ (-1074 : Int) ≤ 4 * v :=
    (mul_le_mul hplaces hscale (by positivity) (by linarith)).trans h.low
  have hhalf : (2 : ℚ) ^ (-1074 : Int) = 2 * 2 ^ (-1075 : Int) := by
    rw [← zpow_one_add₀ (by norm_num)]
    rfl
  calc (10 : ℚ) ^ (-400 : Int) ≤ 2 ^ (-1200 : Int) := ten_zpow_neg_le 400
    _ < 2 ^ (-1075 : Int) := zpow_lt_zpow_right₀ (by norm_num) (by norm_num)
    _ ≤ v := by linarith

theorem Rounds.upper (h : Rounds v m e) (hm : Canonical m e) (hrange : e ≤ 971) :
    v < (10 : ℚ) ^ (399 : Int) := by
  have hmantissa : (m : ℚ) ≤ 2 ^ 53 := by exact_mod_cast hm.lt.le
  have hplaces : (4 * m + 2 : ℚ) < 4 * 2 ^ 54 := by linarith
  have hbits : (2 : ℚ) ^ 54 * 2 ^ (971 : Int) ≤ 2 ^ (3 * 399) := by
    rw [← zpow_natCast, ← zpow_natCast, ← zpow_add₀ (by norm_num)]
    exact zpow_le_zpow_right₀ (by norm_num) (by norm_num)
  have hscale : (2 : ℚ) ^ e ≤ 2 ^ (971 : Int) := zpow_le_zpow_right₀ (by norm_num) hrange
  have hvalue : 4 * v < 4 * (2 ^ 54 * 2 ^ (971 : Int)) := by
    rw [← mul_assoc]
    exact h.high.trans_lt (mul_lt_mul hplaces hscale (by positivity) (by positivity))
  calc v < 2 ^ 54 * 2 ^ (971 : Int) := by linarith
    _ ≤ 2 ^ (3 * 399) := hbits
    _ ≤ 10 ^ 399 := two_pow_le_ten_pow 399

/-- A decimal in the interval of a float is read as that float. -/
theorem Rounds.nearestFloat? (hm : Canonical m e) (hpos : 0 < m) (hrange : e ≤ 971)
    (h : Rounds (significand * 10 ^ exponent) m e) :
    ∃ value, nearestFloat? significand exponent = some value ∧
      value.toModel.unpack = .finite .positive m e hpos := by
  have hlower := h.lower hm hpos
  have hupper := h.upper hm hrange
  have hsignificand : 0 < significand := by
    rcases Nat.eq_zero_or_pos significand with rfl | hpos
    · exact absurd (h.pos hpos) (by simp)
    · exact hpos
  obtain ⟨hfirst, hnext⟩ := zpow_digitCount hsignificand
  have hlog := digitCount_le_log2 hsignificand
  have hcount := digitCount_pos significand
  have hscale : (0 : ℚ) < 10 ^ exponent := by positivity
  have habove : -400 < (digitCount significand : Int) + exponent := by
    have hlt : (10 : ℚ) ^ (-400 : Int) < 10 ^ ((digitCount significand : Int) + exponent) := by
      rw [zpow_add₀ (by norm_num)]
      exact hlower.trans (mul_lt_mul_of_pos_right hnext hscale)
    exact (zpow_lt_zpow_iff_right₀ (by norm_num)).mp hlt
  have hbelow : (digitCount significand : Int) - 1 + exponent < 399 := by
    have hlt : (10 : ℚ) ^ ((digitCount significand : Int) - 1 + exponent) < 10 ^ (399 : Int) := by
      rw [zpow_add₀ (by norm_num)]
      exact (mul_le_mul_of_nonneg_right hfirst hscale.le).trans_lt hupper
    exact (zpow_lt_zpow_iff_right₀ (by norm_num)).mp hlt
  have hvalue := h.unpack_ofScientific hm hpos hrange hsignificand (by omega) (by omega)
  refine ⟨_, ?_, hvalue⟩
  have hsmall : ¬ (digitCount significand : Int) + exponent < -horizon := by
    rw [horizon]
    omega
  have hlarge : ¬ horizon < (digitCount significand : Int) + exponent := by
    rw [horizon]
    omega
  have hinf : (Float.ofScientific significand (exponent < 0) exponent.natAbs).isInf = false :=
    congrArg UnpackedFloat.isInf hvalue
  rw [Decimal.nearestFloat?]
  simp [hsignificand.ne', hsmall, hlarge, hinf]

/-- The fewest digits of a float lie in its interval. -/
theorem Binary.shortest_rounds {b : Binary} (tie : Tie) (hm : Canonical b.significand b.exponent)
    (hpos : 0 < b.significand) :
    Rounds ((b.shortest tie).count * 10 ^ (b.shortest tie).unit) b.significand b.exponent := by
  obtain ⟨lead, hlead⟩ : ∃ lead,
      leadingExponent (b.significand * b.scaleUp) b.scaleDown = lead := ⟨_, rfl⟩
  have hleading : (10 : ℚ) ^ (lead - 16 + 16) ≤ b.significand * 2 ^ b.exponent := by
    rw [sub_add_cancel, ← hlead, ← b.value_eq]
    exact zpow_leadingExponent_le (Nat.mul_pos hpos b.scaleUp_pos) b.scaleDown_pos
  obtain ⟨last, hlast⟩ := Option.isSome_iff_exists.mp (hit_isSome tie hpos hm.lt hleading)
  simp only [shortest, hlead]
  generalize hfound : (List.range 17).findSome? (fun more : Nat =>
    (b.hit tie (lead - more)).map fun count => Digits.mk count (lead - more)) = found
  cases found with
  | none =>
    have hnone := List.findSome?_eq_none_iff.mp hfound 16 (by simp)
    have hhit : b.hit tie (lead - (16 : Nat)) = some last := hlast
    rw [hhit] at hnone
    cases hnone
  | some digits =>
    obtain ⟨more, -, hmore⟩ := List.exists_of_findSome?_eq_some hfound
    obtain ⟨count, hhit, rfl⟩ := Option.map_eq_some_iff.mp hmore
    exact hit_rounds hpos hhit

/-- A whole float with all its digits. -/
theorem Binary.floor_of_isWhole {b : Binary} (h : b.isWhole = true) :
    (b.floor : ℚ) = b.significand * 2 ^ b.exponent := by
  have hdvd : b.scaleDown ∣ b.significand := Nat.dvd_of_mod_eq_zero (by simpa [isWhole] using h)
  have hscale : (b.scaleDown : ℚ) ≠ 0 := by exact_mod_cast b.scaleDown_pos.ne'
  rw [← b.value_eq, floor, Nat.cast_div (hdvd.mul_right _) hscale]

end TypedRoutes.Decimal
