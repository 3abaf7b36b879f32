import TypedRoutes.Proofs.Decimal.Naturals

/-!
# Fields of a float

The significand and exponent that are decoded from the bits of a float are those of its unpacked
form, and its sign is that of the highest bit.
-/

namespace TypedRoutes.Decimal

open Float.Model (Format UnpackedFloat)
open Float.Model.UnpackedFloat

variable {x y z : Float}

/-- The sign of a float, that of a zero included. -/
def signOf (x : Float) : Sign :=
  if isNegative x then .negative else .positive

/-- A float whose sign is positive is not negative. -/
theorem isNegative_eq_false {x : Float} (h : signOf x = .positive) : isNegative x = false := by
  cases hnegative : isNegative x with
  | false => rfl
  | true => simp [signOf, hnegative] at h

/-- The digits behind the point, as they are stored. -/
def fractionField (x : Float) : Nat := x.toBits.toNat % fractionCount

/-- The exponent, as it is stored. -/
def exponentField (x : Float) : Nat := x.toBits.toNat / fractionCount % exponentCount

theorem fractionField_lt (x : Float) : fractionField x < 2 ^ 52 := by
  rw [fractionField, fractionCount, Nat.pow_eq]
  exact Nat.mod_lt _ (by decide)

theorem exponentField_lt (x : Float) : exponentField x < 2048 := by
  rw [exponentField, exponentCount, Nat.pow_eq]
  exact Nat.mod_lt _ (by decide)

/-- The bits of a float are its fields. -/
theorem toBits_eq_packComponents (x : Float) :
    x.toBits.toBitVec = packComponents Format.binary64 (signOf x)
      (BitVec.ofNat 11 (exponentField x)) (BitVec.ofNat 52 (fractionField x)) := by
  have hbits := x.toBits.toNat_lt
  have hplace : signPlace = 2 ^ 63 := rfl
  have hsign : (signOf x).toBitVec.toNat = x.toBits.toNat / 2 ^ 63 := by
    rw [signOf, isNegative, hplace]
    by_cases hlow : 2 ^ 63 ≤ x.toBits.toNat
    · rw [decide_eq_true hlow]
      change 1 = _
      omega
    · rw [decide_eq_false hlow]
      change 0 = _
      omega
  apply BitVec.eq_of_toNat_eq
  simp only [packComponents, BitVec.toNat_append, hsign, BitVec.toNat_ofNat]
  have hexponent : x.toBits.toNat / 2 ^ 63 * 2 ^ 11 + exponentField x =
      x.toBits.toNat / 2 ^ 52 := by
    rw [exponentField, fractionCount, exponentCount, Nat.pow_eq, Nat.pow_eq]
    generalize x.toBits.toNat = bits
    omega
  have hfraction : x.toBits.toNat / 2 ^ 52 * 2 ^ 52 + fractionField x = x.toBits.toNat := by
    rw [fractionField, fractionCount, Nat.pow_eq]
    exact Nat.div_add_mod' _ _
  have hlow := fractionField_lt x
  have hhigh : exponentField x < 2 ^ 11 := exponentField_lt x
  rw [Nat.mod_eq_of_lt hhigh, Nat.mod_eq_of_lt hlow, ← Nat.shiftLeft_add_eq_or_of_lt hlow,
    ← Nat.shiftLeft_add_eq_or_of_lt hhigh, Nat.shiftLeft_eq, Nat.shiftLeft_eq, hexponent, hfraction]
  rfl

theorem Binary.ofFloat_eq (x : Float) : Binary.ofFloat x =
    if exponentField x = 0 then ⟨fractionField x, -1074⟩
    else ⟨fractionCount + fractionField x, (exponentField x : Int) - 1075⟩ := rfl

/-- The fields of a float that is not finite. -/
theorem isFinite_unpack_last (sign : Sign) (fraction : BitVec 52) :
    (unpack Format.binary64
      (packComponents Format.binary64 sign (BitVec.ofNat 11 2047) fraction)).isFinite = false := by
  simp [unpack]
  split <;> rfl

/-- With both fields zero a word stands for zero. -/
theorem unpack_packComponents_zero (sign : Sign) :
    unpack Format.binary64 (packComponents Format.binary64 sign 0#11 0#52) = .zero sign := by
  cases sign <;> rfl

/-- A finite float unpacks to its sign and the significand and exponent that are decoded from it. -/
theorem unpack_of_isFinite (h : x.isFinite = true) :
    ((Binary.ofFloat x).significand = 0 ∧ x.toModel.unpack = .zero (signOf x)) ∨
      ∃ hpos : 0 < (Binary.ofFloat x).significand,
        Canonical (Binary.ofFloat x).significand (Binary.ofFloat x).exponent ∧
          (Binary.ofFloat x).exponent ≤ 971 ∧
          x.toModel.unpack =
            .finite (signOf x) (Binary.ofFloat x).significand (Binary.ofFloat x).exponent hpos := by
  have hcount : fractionCount = 2 ^ 52 := rfl
  have hlt := fractionField_lt x
  have hlast := exponentField_lt x
  have hunpack : x.toModel.unpack = unpack Format.binary64
      (packComponents Format.binary64 (signOf x)
      (BitVec.ofNat 11 (exponentField x)) (BitVec.ofNat 52 (fractionField x))) :=
    congrArg (unpack Format.binary64) (toBits_eq_packComponents x)
  have hfinite : x.toModel.unpack.isFinite = true := h
  rw [hunpack] at hfinite ⊢
  rw [Binary.ofFloat_eq, hcount]
  generalize signOf x = sign at hfinite ⊢
  generalize fractionField x = fraction at hlt hfinite ⊢
  generalize exponentField x = exponent at hlast hfinite ⊢
  by_cases hfirst : exponent = 0
  · subst hfirst
    rw [if_pos rfl]
    rcases Nat.eq_zero_or_pos fraction with rfl | hpos
    · exact .inl ⟨rfl, unpack_packComponents_zero sign⟩
    · exact .inr ⟨hpos, ⟨hlt.trans (by decide), .inr rfl, le_rfl⟩, by norm_num,
        unpack_packComponents_subnormal hlt hpos⟩
  · rw [if_neg hfirst]
    have hlarge : exponent ≠ 2047 := by
      rintro rfl
      rw [isFinite_unpack_last] at hfinite
      cases hfinite
    have hfraction : BitVec.ofNat 52 fraction = BitVec.ofNat 52 (2 ^ 52 + fraction) := by
      apply BitVec.eq_of_toNat_eq
      simp
    have hpos : 0 < 2 ^ 52 + fraction := by omega
    have hcanonical : Canonical (2 ^ 52 + fraction) ((exponent : Int) - 1075) :=
      ⟨by omega, .inl (by omega), by omega⟩
    rw [hfraction]
    have hrange : (exponent : Int) - 1075 ≤ 971 := by omega
    exact .inr ⟨hpos, hcanonical, hrange,
      unpack_packComponents_normal (by omega) (by omega) (by omega) (by omega) hpos⟩

/-- The binary form of a whole number, its leading bit at place 52, is that number. -/
theorem Binary.floor_of_scaled {b : Binary} {n shift : Nat}
    (hsignificand : b.significand = n * 2 ^ shift)
    (hexponent : b.exponent = -shift) : b.isWhole = true ∧ b.floor = n := by
  have hup : b.scaleUp = 1 := by simp [scaleUp, hexponent]
  have hdown : b.scaleDown = 2 ^ shift := by simp [scaleDown, hexponent]
  have hpos : 0 < 2 ^ shift := by positivity
  constructor
  · simp [isWhole, hsignificand, hdown]
  · rw [floor, hsignificand, hup, hdown, Nat.mul_one, Nat.mul_div_cancel n hpos]

/-! ## Signs and equality -/

variable {m : Nat} {e : Int} {sign : Sign} {hpos : 0 < m}

/-- The negation of a float turns the sign and keeps the rest. -/
theorem Canonical.unpack_neg (hm : Canonical m e) (hrange : e ≤ 971)
    (h : x.toModel.unpack = .finite sign m e hpos) :
    (-x).toModel.unpack = .finite (-sign) m e hpos := by
  change unpack Format.binary64 (pack Format.binary64 x.toModel.unpack.neg) = _
  rw [h]
  exact hm.unpack_pack hpos hrange

/-- Numbers are equal if they are the same, the signs of zeros aside. -/
theorem compare_eq_iff {a b : UnpackedFloat} : a.compare b = some .eq ↔
    (∃ s t, a = .zero s ∧ b = .zero t) ∨ (a = b ∧ a ≠ .notANumber) := by
  constructor
  · intro h
    rcases a with (_ | _) | _ | _ | ⟨_ | _, m, e, hm⟩ <;>
      rcases b with (_ | _) | _ | _ | ⟨_ | _, m', e', hm'⟩ <;>
      simp_all [UnpackedFloat.compare, Ordering.then_eq_eq]
  · rintro (⟨s, t, rfl, rfl⟩ | ⟨rfl, hnumber⟩)
    · rfl
    · cases a with
      | notANumber => exact absurd rfl hnumber
      | infinity s => cases s <;> rfl
      | zero s => rfl
      | finite s m e hpos => cases s <;> simp [UnpackedFloat.compare]

theorem compare_finite_self (sign : Sign) (m : Nat) (e : Int) (hpos : 0 < m) :
    UnpackedFloat.compare (.finite sign m e hpos) (.finite sign m e hpos) = some .eq :=
  compare_eq_iff.mpr (.inr ⟨rfl, fun h => by cases h⟩)

/-- Floats that are equal to the same float are equal. -/
theorem compare_trans {a b c : UnpackedFloat} (hab : a.compare b = some .eq)
    (hbc : b.compare c = some .eq) : a.compare c = some .eq := by
  rw [compare_eq_iff] at *
  rcases hab with ⟨s, t, rfl, rfl⟩ | ⟨rfl, hnumber⟩
  · rcases hbc with ⟨_, u, -, rfl⟩ | ⟨rfl, -⟩
    · exact .inl ⟨s, u, rfl, rfl⟩
    · exact .inl ⟨s, t, rfl, rfl⟩
  · exact hbc

theorem beq_trans (hxy : (x == y) = true) (hyz : (y == z) = true) : (x == z) = true := by
  rw [beq_iff_compare] at *
  exact compare_trans hxy hyz

/-- The order of floats is that of the unpacked ones. -/
theorem lt_iff_compare (x y : Float) :
    x < y ↔ x.toModel.unpack.compare y.toModel.unpack = some .lt := by
  change decide ((x.toModel.unpack.compare y.toModel.unpack == some .lt) = true) = true ↔ _
  rw [decide_eq_true_iff, beq_iff_eq]

/-- A finite number is below zero when its sign bit is set, unless it is a zero. -/
theorem lt_zero_iff (h : x.isFinite = true) :
    x < 0 ↔ isNegative x = true ∧ (Binary.ofFloat x).significand ≠ 0 := by
  have hzero : (0 : Float).toModel.unpack = .zero .positive := rfl
  rw [lt_iff_compare, hzero]
  rcases unpack_of_isFinite h with ⟨hsignificand, hunpack⟩ | ⟨hpos, -, -, hunpack⟩
  · rw [hunpack, hsignificand]
    simp [UnpackedFloat.compare]
  · rw [hunpack, signOf]
    cases isNegative x with
    | true => simp [UnpackedFloat.compare, hpos.ne']
    | false => simp [UnpackedFloat.compare]

end TypedRoutes.Decimal
