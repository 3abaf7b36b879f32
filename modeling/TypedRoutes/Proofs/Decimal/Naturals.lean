import TypedRoutes.Proofs.Decimal.Packing

/-!
# Whole numbers as floats

A whole number below `2 ^ 53` is a float exactly, any other one is rounded to a float whose last
place is at least two. So small whole numbers are told apart from all other whole numbers when both
are made into floats.
-/

namespace TypedRoutes.Decimal

open Float.Model (Format UnpackedFloat totalExponent)
open Float.Model.UnpackedFloat

variable {sign : Sign} {m n k : Nat} {e E : Int}

/-- A power of two as a factor adds its exponent to the logarithm. -/
theorem log2_mul_two_pow (hm : 0 < m) (k : Nat) : (m * 2 ^ k).log2 = m.log2 + k := by
  obtain ⟨hlow, hhigh⟩ := (Nat.log2_eq_iff hm.ne').1 rfl
  refine (Nat.log2_eq_iff (by positivity)).2 ⟨?_, ?_⟩
  · rw [Nat.pow_add]
    exact Nat.mul_le_mul_right _ hlow
  · rw [Nat.add_right_comm, Nat.pow_add]
    exact Nat.mul_lt_mul_of_pos_right hhigh (by positivity)

/-- An exact product of a canonical mantissa is rounded to that mantissa. -/
theorem Canonical.roundWithAccuracy_exact (hm : Canonical m e) (hpos : 0 < m) (he : E + k = e) :
    roundWithAccuracy Format.binary64 sign (m * 2 ^ k) E .exact = .finite sign m e hpos := by
  subst he
  have htotal : totalExponent (m * 2 ^ k) E = totalExponent m (E + k) := by
    rw [totalExponent, totalExponent, log2_mul_two_pow hpos]
    push_cast
    ring
  have hrounds : RoundsTo (m * 2 ^ k) (1 * 2 ^ k) m (E + k) := by
    have hscale := Nat.two_pow_pos k
    refine ⟨?_, by nlinarith, fun hodd => ⟨?_, by nlinarith⟩⟩
    · rw [Nat.one_mul, ← Nat.mul_assoc]
      exact Nat.mul_le_mul_right _ (Nat.sub_le ..)
    · rw [Nat.one_mul, ← Nat.mul_assoc]
      exact Nat.mul_lt_mul_of_pos_right (by omega) hscale
  have hE : E ≤ Format.binary64.targetExponent (totalExponent (m * 2 ^ k / 1) E) := by
    rw [Nat.div_one, htotal, hm.targetExponent]
    omega
  simpa [accuracyOfFraction, Nat.mod_one] using
    hrounds.roundWithAccuracy Nat.one_pos hm hpos hE

theorem scaled_pos (hpos : 0 < n) : 0 < n * 2 ^ (52 - n.log2) := by positivity

/-- A positive whole number below `2 ^ 53` with its leading bit at place 52. -/
theorem canonical_ofNat (hpos : 0 < n) (hn : n < 2 ^ 53) :
    Canonical (n * 2 ^ (52 - n.log2)) (n.log2 - 52) := by
  obtain ⟨hlow, hhigh⟩ := (Nat.log2_eq_iff hpos.ne').1 rfl
  have hlog : n.log2 < 53 := (Nat.log2_lt hpos.ne').2 hn
  have hplaces : n.log2 + (52 - n.log2) = 52 := by omega
  refine ⟨?_, Or.inl ?_, by omega⟩
  · calc n * 2 ^ (52 - n.log2) < 2 ^ (n.log2 + 1) * 2 ^ (52 - n.log2) :=
          Nat.mul_lt_mul_of_pos_right hhigh (by positivity)
      _ = 2 ^ 53 := by rw [← Nat.pow_add, Nat.add_right_comm, hplaces]
  · calc 2 ^ 52 = 2 ^ n.log2 * 2 ^ (52 - n.log2) := by rw [← Nat.pow_add, hplaces]
      _ ≤ n * 2 ^ (52 - n.log2) := Nat.mul_le_mul_right _ hlow

/-- A whole number that fits into the significand is rounded to itself, shifted to full width. -/
theorem round_ofNat (hpos : 0 < n) (hn : n < 2 ^ 53) :
    Float.Model.UnpackedFloat.round Format.binary64 sign n 0 =
      .finite sign (n * 2 ^ (52 - n.log2)) (n.log2 - 52) (scaled_pos hpos) := by
  have hlog : n.log2 < 53 := (Nat.log2_lt hpos.ne').2 hn
  have htarget : Format.binary64.targetExponent (totalExponent n 0) = n.log2 - 52 := by
    rw [targetExponent_eq, totalExponent]
    omega
  have hshift : (0 - ((n.log2 : Int) - 52)).toNat = 52 - n.log2 := by omega
  have hexponent : (0 : Int) - ((52 - n.log2 : Nat) : Int) = n.log2 - 52 := by omega
  simp only [Float.Model.UnpackedFloat.round, htarget, decreaseExponent, hshift, hexponent,
    Nat.shiftLeft_eq]
  simpa using (canonical_ofNat hpos hn).roundWithAccuracy_exact (k := 0) (by positivity) (by simp)

/-- The float of a machine word below `2 ^ 53`, as significand and exponent. -/
theorem unpack_toFloat (hpos : 0 < n) (hn : n < 2 ^ 53) :
    n.toUInt64.toFloat.toModel.unpack =
      .finite .positive (n * 2 ^ (52 - n.log2)) (n.log2 - 52) (scaled_pos hpos) := by
  have hlog : n.log2 < 53 := (Nat.log2_lt hpos.ne').2 hn
  have hword : n.toUInt64.toNat = n := Nat.mod_eq_of_lt (by omega)
  have hsign : compare (n : Int) 0 = .gt := Int.compare_eq_gt.2 (by omega)
  change unpack Format.binary64 (pack Format.binary64
    (Float.Model.UnpackedFloat.normalize Format.binary64 n.toUInt64.toNat 0 .positive)) = _
  simp only [hword, Float.Model.UnpackedFloat.normalize, hsign, Int.toNat_natCast,
    round_ofNat hpos hn]
  exact (canonical_ofNat hpos hn).unpack_pack (by positivity) (by omega)

theorem unpack_one : (Float.ofBits 0x3FF0000000000000).toModel.unpack =
    .finite .positive (2 ^ 52) (-52) (by decide) := by
  rfl

/-- A whole number below `2 ^ 53` is a float exactly. -/
theorem unpack_ofNat_small (hpos : 0 < n) (hn : n < 2 ^ 53) :
    (Float.ofNat n).toModel.unpack =
      .finite .positive (n * 2 ^ (52 - n.log2)) (n.log2 - 52) (scaled_pos hpos) := by
  have hcanonical := canonical_ofNat hpos hn
  have hlog : n.log2 < 53 := (Nat.log2_lt hpos.ne').2 hn
  have hfast : Float.ofNat n = n.toUInt64.toFloat * Float.ofBits 0x3FF0000000000000 := by
    have hsmall : n < 2 ^ 53 ∧ 0 ≤ 22 := ⟨hn, by decide⟩
    change Float.ofScientific n false 0 = _
    simp only [Float.ofScientific, dif_pos hsmall]
    rfl
  rw [hfast]
  change unpack Format.binary64 (pack Format.binary64 (mul Format.binary64
    n.toUInt64.toFloat.toModel.unpack (Float.ofBits 0x3FF0000000000000).toModel.unpack)) = _
  rw [unpack_toFloat hpos hn, unpack_one]
  have hproduct : roundWithAccuracy Format.binary64 .positive (n * 2 ^ (52 - n.log2) * 2 ^ 52)
      (n.log2 - 52 + -52) .exact = _ :=
    hcanonical.roundWithAccuracy_exact (by positivity) (by omega)
  exact (congrArg _ (congrArg _ hproduct)).trans
    (hcanonical.unpack_pack (by positivity) (by omega))

/-- Rounding keeps 53 bits and raises the place of the last one by at most one. -/
theorem exists_roundWithAccuracy_exact {t : Int} {shift : Nat} (hE : E + shift = t)
    (ht : -1074 ≤ t) (hlow : 2 ^ (52 + shift) ≤ n) (hhigh : n < 2 ^ (53 + shift)) :
    ∃ m e hpos, Canonical m e ∧ t ≤ e ∧ e ≤ t + 1 ∧
      roundWithAccuracy Format.binary64 sign n E .exact = .finite sign m e hpos := by
  subst hE
  have hn : 0 < n := by have := Nat.two_pow_pos (52 + shift); omega
  have htarget : Format.binary64.targetExponent (totalExponent (n / 1) E) = E + shift := by
    rw [targetExponent_eq, Nat.div_one, totalExponent_eq hlow (by rwa [Nat.add_right_comm])]
    omega
  have hshift : (E + shift - E).toNat = shift := by omega
  have hden : 0 < 1 * 2 ^ shift := by positivity
  obtain ⟨q, hrounded⟩ : ∃ q, (quotient n (1 * 2 ^ shift)).roundedMantissa = q := ⟨_, rfl⟩
  have hnearest : Nearest n (1 * 2 ^ shift) q := hrounded ▸ nearest_roundedMantissa hden
  rw [roundedMantissa_quotient hden] at hrounded
  have hq : 2 ^ 52 ≤ q ∧ q ≤ 2 ^ 53 := by
    have hbelow : 2 ^ 52 ≤ n / (1 * 2 ^ shift) := by
      rw [Nat.le_div_iff_mul_le (by positivity), Nat.one_mul, ← Nat.pow_add]
      exact hlow
    have habove : n / (1 * 2 ^ shift) < 2 ^ 53 := by
      rw [Nat.div_lt_iff_lt_mul (by positivity), Nat.one_mul, ← Nat.pow_add]
      exact hhigh
    split at hrounded <;> omega
  have hround {r extra : Nat} (hnext : Format.binary64.targetExponent
      (totalExponent q (E + shift)) = E + shift + extra) (hr : q / 2 ^ extra = r) (hpos : 0 < r) :
      roundWithAccuracy Format.binary64 sign n E .exact =
        .finite sign r (E + shift + extra) hpos := by
    simpa [accuracyOfFraction, Nat.mod_one] using
      roundWithAccuracy_of_nearest Nat.one_pos htarget (by omega) (by rwa [hshift]) hnext hr hpos
  rcases Nat.lt_or_eq_of_le hq.2 with hlt | rfl
  · have hcanonical : Canonical q (E + shift) := ⟨hlt, Or.inl hq.1, ht⟩
    exact ⟨q, E + shift + (0 : Nat), by omega, by simpa using hcanonical, by simp, by omega,
      hround (by simpa using hcanonical.targetExponent) (by simp) (by omega)⟩
  · refine ⟨2 ^ 52, E + shift + (1 : Nat), by decide, ⟨by decide, Or.inl le_rfl, by omega⟩,
      by omega, by omega, hround ?_ (by decide) (by decide)⟩
    rw [targetExponent_eq, totalExponent_eq (k := 53) (by simp) (by simp)]
    omega

/-- The other whole numbers are rounded, and packed as far as their exponent allows. -/
theorem exists_unpack_ofNat (hn : 2 ^ 53 ≤ n) :
    ∃ m e hpos, Canonical m e ∧ n.log2 - 52 ≤ e ∧ e ≤ n.log2 - 51 ∧
      (Float.ofNat n).toModel.unpack =
        unpack Format.binary64 (pack Format.binary64 (.finite .positive m e hpos)) := by
  have hpos : 0 < n := by omega
  obtain ⟨hlow, hhigh⟩ := (Nat.log2_eq_iff hpos.ne').1 rfl
  have hlog : 53 ≤ n.log2 := (Nat.le_log2 hpos.ne').2 hn
  have hlow' : 2 ^ (52 + (n.log2 + 1)) ≤ n * 2 ^ 53 := by
    rw [show 52 + (n.log2 + 1) = n.log2 + 53 by omega, Nat.pow_add]
    exact Nat.mul_le_mul_right _ hlow
  have hhigh' : n * 2 ^ 53 < 2 ^ (53 + (n.log2 + 1)) := by
    rw [Nat.add_comm, Nat.pow_add]
    exact Nat.mul_lt_mul_of_pos_right hhigh (by decide)
  obtain ⟨m, e, hm, hcanonical, he, he', hround⟩ : ∃ m e hpos, Canonical m e ∧ n.log2 - 52 ≤ e ∧
      e ≤ n.log2 - 52 + 1 ∧ roundWithAccuracy Format.binary64 .positive (n * 2 ^ 53) (-53) .exact =
        .finite .positive m e hpos :=
    exists_roundWithAccuracy_exact (by omega) (by omega) hlow' hhigh'
  refine ⟨m, e, hm, hcanonical, he, by omega, ?_⟩
  have hscientific : Float.ofNat n = Float.ofModel (Float.Model.ofScientific n 0) := by
    have hlarge : ¬ (n < 2 ^ 53 ∧ 0 ≤ 22) := by omega
    change Float.ofScientific n false 0 = _
    simp only [Float.ofScientific, dif_neg hlarge]
    rfl
  have hproduct : Float.Model.UnpackedFloat.ofScientific Format.binary64 n 0 =
      .finite .positive m e hm := by
    rw [← hround]
    have hnear : ¬ (2048 : Int) < -(n.log2 : Int) := by omega
    simp [Float.Model.UnpackedFloat.ofScientific, hpos.ne', mul, Nat.shiftLeft_eq, hnear]
    rfl
  rw [hscientific]
  exact congrArg (fun f => unpack Format.binary64 (pack Format.binary64 f)) hproduct

/-- The other whole numbers become floats whose last place is at least two. -/
theorem unpack_ofNat_large (hn : 2 ^ 53 ≤ n) :
    (Float.ofNat n).toModel.unpack = .infinity .positive ∨
      ∃ m e hpos, (1 : Int) ≤ e ∧ (Float.ofNat n).toModel.unpack = .finite .positive m e hpos := by
  obtain ⟨m, e, hm, hcanonical, he, -, hunpack⟩ := exists_unpack_ofNat hn
  have hlog : 53 ≤ n.log2 := (Nat.le_log2 (by omega)).2 hn
  rw [hunpack]
  by_cases hrange : e ≤ 971
  · exact Or.inr ⟨m, e, hm, by omega, hcanonical.unpack_pack hm hrange⟩
  · exact Or.inl (unpack_pack_overflow hm (not_le.1 hrange))

theorem unpack_ofNat_zero : (Float.ofNat 0).toModel.unpack = .zero .positive := by
  rfl

/-- Floats are equal when they compare as equal once they are unpacked. -/
theorem beq_iff_compare (x y : Float) :
    (x == y) = true ↔ x.toModel.unpack.compare y.toModel.unpack = some .eq := by
  change (x.toModel.unpack.compare y.toModel.unpack == some .eq) = true ↔ _
  exact beq_iff_eq

/-- Positive floats are equal when their exponents and their significands are. -/
theorem compare_finite_eq {m m' : Nat} {e e' : Int} (h : 0 < m) (h' : 0 < m') :
    UnpackedFloat.compare (.finite .positive m e h) (.finite .positive m' e' h') = some .eq ↔
      e = e' ∧ m = m' := by
  simp [UnpackedFloat.compare, Ordering.then_eq_eq]

/-- Whole numbers below `2 ^ 53` have equal floats only if they are equal. -/
theorem ofNat_beq_of_lt {a b : Nat} (ha : a < 2 ^ 53) (hb : b < 2 ^ 53) :
    (Float.ofNat a == Float.ofNat b) = true ↔ a = b := by
  rw [beq_iff_compare]
  rcases Nat.eq_zero_or_pos a with rfl | hapos <;> rcases Nat.eq_zero_or_pos b with rfl | hbpos
  · simp [unpack_ofNat_zero, UnpackedFloat.compare]
  · simp [unpack_ofNat_zero, unpack_ofNat_small hbpos hb, UnpackedFloat.compare, hbpos.ne]
  · simp [unpack_ofNat_zero, unpack_ofNat_small hapos ha, UnpackedFloat.compare, hapos.ne']
  · rw [unpack_ofNat_small hapos ha, unpack_ofNat_small hbpos hb, compare_finite_eq]
    refine ⟨fun ⟨he, hm⟩ => ?_, fun h => by simp [h]⟩
    have hlog : a.log2 = b.log2 := by omega
    rw [hlog] at hm
    exact Nat.eq_of_mul_eq_mul_right (by positivity) hm

/-- The float of a number below `2 ^ 32` is zero, or its exponent is below zero. -/
theorem unpack_ofNat_place {n : Nat} (hn : n < 2 ^ 32) : (Float.ofNat n).toModel.unpack =
    .zero .positive ∨ ∃ m e hpos, e < (0 : Int) ∧
      (Float.ofNat n).toModel.unpack = .finite .positive m e hpos := by
  rcases Nat.eq_zero_or_pos n with rfl | hpos
  · exact Or.inl unpack_ofNat_zero
  · have hlog : n.log2 < 32 := (Nat.log2_lt hpos.ne').2 hn
    exact Or.inr ⟨_, _, _, by omega, unpack_ofNat_small hpos (by omega)⟩

/-- No number below `2 ^ 32` has the float of a number from `2 ^ 53` on. -/
theorem not_ofNat_beq {a b : Nat} (ha : a < 2 ^ 32) (hb : 2 ^ 53 ≤ b) :
    ¬ (Float.ofNat a == Float.ofNat b) = true ∧ ¬ (Float.ofNat b == Float.ofNat a) = true := by
  rw [beq_iff_compare, beq_iff_compare]
  rcases unpack_ofNat_place ha with hx | ⟨m, e, hm, he, hx⟩ <;>
    rcases unpack_ofNat_large hb with hy | ⟨m', e', hm', he', hy⟩ <;> rw [hx, hy]
  · simp [UnpackedFloat.compare]
  · simp [UnpackedFloat.compare]
  · simp [UnpackedFloat.compare]
  · rw [compare_finite_eq, compare_finite_eq]
    omega

/-- Floats of whole numbers are equal only for equal numbers, as long as one of them is small. -/
theorem ofNat_beq_ofNat {a b : Nat} (h : a < 2 ^ 32 ∨ b < 2 ^ 32) :
    (Float.ofNat a == Float.ofNat b) = true ↔ a = b := by
  by_cases hab : a < 2 ^ 53 ∧ b < 2 ^ 53
  · exact ofNat_beq_of_lt hab.1 hab.2
  · have hne : a ≠ b := by omega
    simp only [hne, iff_false]
    rcases h with ha | hb
    · exact (not_ofNat_beq ha (by omega)).1
    · exact (not_ofNat_beq hb (by omega)).2

end TypedRoutes.Decimal
