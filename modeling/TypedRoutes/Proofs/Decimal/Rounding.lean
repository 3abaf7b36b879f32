import TypedRoutes.Decimal.Shortest
import Mathlib

/-!
# Rounding to a float

Arithmetic on floats rounds an exact fraction to 53 bits. The mantissa is shifted to the right bit
by bit while two residual bits remember what was lost; here those bits are read as the remainder of
a division, so that a shift is a larger denominator and rounding is a statement about the fraction.
-/

namespace TypedRoutes.Decimal

open Float.Model Float.Model.UnpackedFloat

/-- The mantissa of `num / den`, its residual bits telling the remainder. -/
def quotient (num den : Nat) : ExtendedMantissa where
  mantissa := num / den
  roundBit := den ≤ 2 * (num % den)
  stickyBit := num % den ≠ 0 ∧ 2 * (num % den) ≠ den

/-- `q` is the whole number nearest to `num / den`, the even one of two. -/
structure Nearest (num den q : Nat) : Prop where
  low : 2 * (q * den) ≤ 2 * num + den
  high : 2 * num ≤ 2 * (q * den) + den
  even : q % 2 = 1 → 2 * (q * den) < 2 * num + den ∧ 2 * num < 2 * (q * den) + den

variable {num den q : Nat}

/-- The remainder of a division is a fraction behind its quotient. -/
theorem ofMantissaAndAccuracy_fraction (hden : 0 < den) :
    ExtendedMantissa.ofMantissaAndAccuracy (num / den) (accuracyOfFraction (num % den) den) =
      quotient num den := by
  have hlt := Nat.mod_lt num hden
  unfold accuracyOfFraction quotient
  by_cases h0 : num % den = 0
  · simp [h0, ExtendedMantissa.ofMantissaAndAccuracy]; omega
  · rcases Nat.lt_trichotomy (2 * (num % den)) den with h | h | h
    · simp [h0, Nat.compare_eq_lt.2 h, ExtendedMantissa.ofMantissaAndAccuracy]; omega
    · simp [h0, Nat.compare_eq_eq.2 h, ExtendedMantissa.ofMantissaAndAccuracy]; omega
    · simp [h0, Nat.compare_eq_gt.2 h, ExtendedMantissa.ofMantissaAndAccuracy]; omega

/-- An exact mantissa is the quotient by one. -/
theorem ofMantissaAndAccuracy_exact (n : Nat) :
    ExtendedMantissa.ofMantissaAndAccuracy n .exact = quotient n 1 := by
  simp [ExtendedMantissa.ofMantissaAndAccuracy, quotient, Nat.mod_one]

/-- To shift by one place is to divide by two. -/
theorem shiftRightOne_quotient (hden : 0 < den) :
    (quotient num den).shiftRightOne = quotient num (den * 2) := by
  have hlt := Nat.mod_lt num hden
  have hdiv : num / (den * 2) = num / den / 2 := by rw [Nat.div_div_eq_div_mul]
  have hmod : num % (den * 2) = num % den + den * (num / den % 2) := Nat.mod_mul
  rcases Nat.mod_two_eq_zero_or_one (num / den) with h | h
  · simp [ExtendedMantissa.shiftRightOne, quotient, hdiv, hmod, h]
    constructor <;> grind
  · simp [ExtendedMantissa.shiftRightOne, quotient, hdiv, hmod, h]
    constructor <;> grind

/-- To shift by several places is to divide by a power of two. -/
theorem shiftRight_quotient (hden : 0 < den) (k : Nat) :
    quotient num den >>> k = quotient num (den * 2 ^ k) := by
  change k.repeat ExtendedMantissa.shiftRightOne (quotient num den) = _
  induction k with
  | zero => simp [Nat.repeat]
  | succ k ih =>
    rw [Nat.repeat, ih, shiftRightOne_quotient (by positivity), Nat.pow_succ, Nat.mul_assoc]

/-- The quotient rounds down or up, by its remainder and in the middle by its parity. -/
theorem roundedMantissa_quotient (hden : 0 < den) :
    (quotient num den).roundedMantissa =
      if 2 * (num % den) < den ∨ (2 * (num % den) = den ∧ num / den % 2 = 0) then num / den
      else num / den + 1 := by
  have hlt := Nat.mod_lt num hden
  have hparity := Nat.mod_two_eq_zero_or_one (num / den)
  rcases Nat.lt_trichotomy (2 * (num % den)) den with h | h | h
  · have hround : ¬ den ≤ 2 * (num % den) := by omega
    have hexact : 2 * (num % den) ≠ den := by omega
    by_cases h0 : num % den = 0 <;>
      simp [quotient, hround, h0, h, hden, hden.ne', hexact, ExtendedMantissa.roundedMantissa,
        ExtendedMantissa.accuracy, Accuracy.roundToNearestEven]
  · have h0 : num % den ≠ 0 := by omega
    rcases hparity with heven | hodd
    · simp [quotient, h, heven, ExtendedMantissa.roundedMantissa,
        ExtendedMantissa.accuracy, Accuracy.roundToNearestEven]
    · simp [quotient, h, hodd, ExtendedMantissa.roundedMantissa,
        ExtendedMantissa.accuracy, Accuracy.roundToNearestEven]
  · have h0 : num % den ≠ 0 := by omega
    have hround : den ≤ 2 * (num % den) := by omega
    have hexact : 2 * (num % den) ≠ den := by omega
    simp [quotient, hround, h0, hexact, not_lt.2 hround, ExtendedMantissa.roundedMantissa,
      ExtendedMantissa.accuracy, Accuracy.roundToNearestEven]

/-- A rounded mantissa is nearest to its fraction. -/
theorem nearest_roundedMantissa (hden : 0 < den) :
    Nearest num den (quotient num den).roundedMantissa := by
  have hlt := Nat.mod_lt num hden
  have hnum := Nat.div_add_mod' num den
  rw [roundedMantissa_quotient hden]
  split
  next h => constructor <;> omega
  next h =>
    have hup : (num / den + 1) * den = num / den * den + den := Nat.succ_mul ..
    constructor <;> omega

/-- Of two nearest mantissas neither is larger than the other. -/
theorem Nearest.le_of_nearest {p : Nat} (hden : 0 < den) (hq : Nearest num den q)
    (hp : Nearest num den p) : q ≤ p := by
  by_contra hlt
  have hstep : p * den + den ≤ q * den := by
    rw [← Nat.succ_mul]
    exact Nat.mul_le_mul_right den (by omega)
  -- Both lie half a step from the fraction, so they are neighbours, and one of them is odd.
  have hnext : q = p + 1 := by
    by_contra hne
    have hfar : (p + 2) * den ≤ q * den := Nat.mul_le_mul_right den (by omega)
    have := Nat.add_mul p 2 den
    have := hq.low
    have := hp.high
    omega
  have := hq.low
  have := hp.high
  have := hq.even
  have := hp.even
  omega

/-- Rounding a quotient gives the nearest whole number. -/
theorem Nearest.roundedMantissa (hden : 0 < den) (h : Nearest num den q) :
    (quotient num den).roundedMantissa = q :=
  have hrounded := nearest_roundedMantissa hden
  le_antisymm (hrounded.le_of_nearest hden h) (h.le_of_nearest hden hrounded)

/-! ## The target exponent -/

/-- The mantissa and the exponent as they are kept: 53 bits, fewer only at the last exponent. -/
structure Canonical (m : Nat) (e : Int) : Prop where
  lt : m < 2 ^ 53
  ge : 2 ^ 52 ≤ m ∨ e = -1074
  exponent : -1074 ≤ e

/-- The exponent of a double leaves 53 bits, unless it is the smallest. -/
theorem targetExponent_eq (total : Int) :
    Format.binary64.targetExponent total = max (total - 53) (-1074) := by
  simp [Format.targetExponent, Format.mantissaBits, Format.minExponent]

/-- The total exponent counts the bits of the mantissa. -/
theorem totalExponent_eq {m k : Nat} (hlow : 2 ^ k ≤ m) (hhigh : m < 2 ^ (k + 1)) (e : Int) :
    totalExponent m e = k + 1 + e := by
  have hm : m ≠ 0 := by have := Nat.two_pow_pos k; omega
  rw [totalExponent, (Nat.log2_eq_iff hm).2 ⟨hlow, hhigh⟩]

/-- A canonical mantissa has its own exponent as the target. -/
theorem Canonical.targetExponent {m : Nat} {e : Int} (h : Canonical m e) :
    Format.binary64.targetExponent (totalExponent m e) = e := by
  rw [targetExponent_eq]
  obtain ⟨hlt, hge, hexponent⟩ := h
  by_cases hlow : 2 ^ 52 ≤ m
  · rw [totalExponent_eq (k := 52) hlow (by omega)]
    omega
  · obtain rfl := hge.resolve_left hlow
    have hlog : m.log2 < 53 := by
      by_cases hm : m = 0
      · simp [hm]
      · exact (Nat.log2_lt hm).2 (by omega)
    rw [totalExponent]
    omega

/-! ## Rounding a fraction -/

variable {sign : Sign} {E e t : Int} {m : Nat}

/-- To shift to the target exponent is to divide by a power of two. -/
theorem shiftToTargetExponent_quotient {accuracy : Accuracy}
    (haccuracy : ExtendedMantissa.ofMantissaAndAccuracy q accuracy = quotient num den)
    (hden : 0 < den) (ht : Format.binary64.targetExponent (totalExponent q E) = t) (hE : E ≤ t) :
    shiftToTargetExponent Format.binary64 q E accuracy =
      (quotient num (den * 2 ^ (t - E).toNat), t) := by
  simp only [shiftToTargetExponent, shiftToExponent, ht, haccuracy, shiftRight_quotient hden,
    Prod.mk.injEq, true_and]
  omega

/-- A rounded mantissa is kept, or loses one bit if rounding has filled one bit too many. -/
theorem roundWithAccuracy_of_nearest (hden : 0 < den)
    (ht : Format.binary64.targetExponent (totalExponent (num / den) E) = t) (hE : E ≤ t)
    (hq : Nearest num (den * 2 ^ (t - E).toNat) q) {r : Nat} {shift : Nat}
    (htarget : Format.binary64.targetExponent (totalExponent q t) = t + shift)
    (hr : q / 2 ^ shift = r) (hpos : 0 < r) :
    roundWithAccuracy Format.binary64 sign (num / den) E (accuracyOfFraction (num % den) den) =
      .finite sign r (t + shift) hpos := by
  have hround := hq.roundedMantissa (by positivity)
  have hsecond := shiftToTargetExponent_quotient (ofMantissaAndAccuracy_exact q) Nat.one_pos
    htarget (by omega)
  rw [roundWithAccuracy, shiftToTargetExponent_quotient (ofMantissaAndAccuracy_fraction hden)
    hden ht hE]
  simp only [hround, hsecond]
  have hmantissa : (quotient q (2 ^ shift)).mantissa = r := hr
  simp [hmantissa, hpos.ne']

/-- The reals that round to a canonical mantissa: half a place to either side, a quarter below a
power of two, and the bounds themselves if the mantissa is even. -/
structure RoundsTo (num den m : Nat) (e : Int) : Prop where
  low : (4 * m - if m = 2 ^ 52 ∧ e ≠ -1074 then 1 else 2) * den ≤ 4 * num
  high : 4 * num ≤ (4 * m + 2) * den
  even : m % 2 = 1 → (4 * m - 2) * den < 4 * num ∧ 4 * num < (4 * m + 2) * den

/-- The total exponent of a quotient between two powers of two. -/
theorem totalExponent_quotient {k : Nat} (hden : 0 < den) (hlow : 2 ^ k * den ≤ num)
    (hhigh : num < 2 ^ (k + 1) * den) : totalExponent (num / den) E = k + 1 + E :=
  totalExponent_eq ((Nat.le_div_iff_mul_le hden).2 hlow) ((Nat.div_lt_iff_lt_mul hden).2 hhigh) E

/-- The total exponent of a quotient below a power of two. -/
theorem totalExponent_quotient_le {k : Nat} (hden : 0 < den) (hhigh : num < 2 ^ (k + 1) * den) :
    totalExponent (num / den) E ≤ k + 1 + E := by
  have hlt := (Nat.div_lt_iff_lt_mul hden).2 hhigh
  have hlog : (num / den).log2 < k + 1 := by
    by_cases h0 : num / den = 0
    · simp [h0]
    · exact (Nat.log2_lt h0).2 hlt
  rw [totalExponent]
  omega

/-- What is rounded is nearest. -/
theorem RoundsTo.nearest (h : RoundsTo num den m e) : Nearest num den m := by
  obtain ⟨hlow, hhigh, heven⟩ := h
  have hbelow (c : Nat) : (4 * m - c) * den = 4 * (m * den) - c * den := by
    rw [Nat.sub_mul, Nat.mul_assoc]
  have habove : (4 * m + 2) * den = 4 * (m * den) + 2 * den := by ring
  rw [hbelow] at hlow heven
  rw [habove] at hhigh heven
  refine ⟨?_, by omega, fun hodd => by have := heven hodd; omega⟩
  split at hlow <;> omega

/-- Below the place of a canonical mantissa only the reals next to a power of two round to it; one
place lower they round to the power of two as well. -/
theorem RoundsTo.below {D : Nat} (hm : Canonical m e) (hlast : e ≠ -1074)
    (h : RoundsTo num (2 * D) m e) (hbelow : num < 2 ^ 52 * (2 * D)) :
    m = 2 ^ 52 ∧ 2 ^ 52 * D ≤ num ∧ Nearest num D (2 ^ 53) := by
  have hge := hm.ge.resolve_right hlast
  have hm' : m = 2 ^ 52 := by
    by_contra hne
    have hmul : (4 * (2 ^ 52 + 1) - 2) * (2 * D) ≤ (4 * m - 2) * (2 * D) :=
      Nat.mul_le_mul_right _ (by omega)
    have := h.low
    simp only [hne, false_and, if_false] at this
    omega
  have hlow := h.low
  simp only [hm', hlast, ne_eq, not_false_eq_true, and_self, if_true] at hlow
  refine ⟨hm', by omega, by omega, by omega, fun hodd => absurd hodd (by decide)⟩

/-- A real in the interval of a canonical mantissa rounds to it. -/
theorem RoundsTo.roundWithAccuracy {k : Nat} (hden : 0 < den) (hm : Canonical m (E + k))
    (hpos : 0 < m)
    (hE : E ≤ Format.binary64.targetExponent (totalExponent (num / den) E))
    (h : RoundsTo num (den * 2 ^ k) m (E + k)) :
    roundWithAccuracy Format.binary64 sign (num / den) E (accuracyOfFraction (num % den) den) =
      .finite sign m (E + k) hpos := by
  have hlt := hm.lt
  have hhigh := h.high
  have hexponent := hm.exponent
  have hscaled (i j : Nat) : 2 ^ i * (den * 2 ^ j) = 2 ^ (i + j) * den := by ring
  have hupper : num < 2 ^ (52 + k + 1) * den := by
    have hmul : (4 * m + 2) * (den * 2 ^ k) < 4 * 2 ^ 53 * (den * 2 ^ k) :=
      Nat.mul_lt_mul_of_pos_right (by omega) (by positivity)
    have := hscaled 53 k
    rw [show 52 + k + 1 = 53 + k by omega]
    omega
  -- a numerator just below a power of two is rounded on the finer grid and then carried up
  by_cases hkeep : 2 ^ 52 * (den * 2 ^ k) ≤ num ∨ E + k = -1074
  · have htarget : Format.binary64.targetExponent (totalExponent (num / den) E) = E + k := by
      rw [targetExponent_eq]
      rcases hkeep with hge | hlast
      · rw [totalExponent_quotient hden (by rwa [hscaled] at hge) hupper]
        omega
      · have := totalExponent_quotient_le (E := E) hden hupper
        omega
    have hshift : (E + k - E).toNat = k := by omega
    have hkept : Format.binary64.targetExponent (totalExponent m (E + k)) =
        E + k + (0 : Nat) := by simpa using hm.targetExponent
    simpa using roundWithAccuracy_of_nearest hden htarget (by omega)
      (by rw [hshift]; exact h.nearest) hkept (by simp) hpos
  · obtain ⟨hbelow, hlast⟩ := not_or.1 hkeep
    cases k with
    | zero =>
      have := totalExponent_quotient_le (E := E) (k := 51) hden (by simpa using hbelow)
      rw [targetExponent_eq] at hE
      omega
    | succ j =>
      have hdouble : den * 2 ^ (j + 1) = 2 * (den * 2 ^ j) := by ring
      rw [hdouble] at h hbelow
      obtain ⟨rfl, hge, hnearest⟩ := h.below hm hlast (by omega)
      have htarget : Format.binary64.targetExponent (totalExponent (num / den) E) = E + j := by
        rw [targetExponent_eq, totalExponent_quotient (k := 52 + j) hden
          (by rwa [hscaled] at hge) (by rw [Nat.add_right_comm, ← hscaled]; omega)]
        omega
      have hshift : (E + j - E).toNat = j := by omega
      have hnext : Format.binary64.targetExponent (totalExponent (2 ^ 53) (E + j)) = E + j + 1 := by
        rw [targetExponent_eq, totalExponent_eq (k := 53) (by simp) (by simp)]
        omega
      have hlast : E + ((j + 1 : Nat) : Int) = E + j + ((1 : Nat) : Int) := by omega
      simp only [hlast]
      exact roundWithAccuracy_of_nearest hden htarget (by omega) (by rwa [hshift]) hnext
        (by decide) hpos

end TypedRoutes.Decimal
