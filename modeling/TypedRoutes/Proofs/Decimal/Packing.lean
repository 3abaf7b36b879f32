import TypedRoutes.Proofs.Decimal.Rounding

/-!
# Packed floats

A canonical mantissa and exponent fit the fields of a float and are read back from them; an
exponent that is too large packs as infinity.
-/

namespace TypedRoutes.Decimal

open Float.Model (Format)
open Float.Model.UnpackedFloat

variable {sign : Sign} {m : Nat} {e : Int}

@[simp]
theorem unpack_pack_zero (sign : Sign) :
    unpack Format.binary64 (pack Format.binary64 (.zero sign)) = .zero sign := by
  cases sign <;> rfl

@[simp]
theorem unpack_pack_infinity (sign : Sign) :
    unpack Format.binary64 (pack Format.binary64 (.infinity sign)) = .infinity sign := by
  cases sign <;> rfl

theorem log2_of_normal (hlow : 2 ^ 52 ≤ m) (hhigh : m < 2 ^ 53) : m.log2 = 52 :=
  (Nat.log2_eq_iff (by omega)).2 ⟨hlow, hhigh⟩

/-- The fields of a float with the hidden bit. -/
theorem unpack_packComponents_normal {field : Nat} (hfield : 0 < field) (hfield' : field < 2047)
    (hlow : 2 ^ 52 ≤ m) (hhigh : m < 2 ^ 53) (hpos : 0 < m) :
    unpack Format.binary64
        (packComponents Format.binary64 sign (BitVec.ofNat 11 field) (BitVec.ofNat 52 m)) =
      .finite sign m (field - 1075) hpos := by
  have hnat : (BitVec.ofNat 11 field).toNat = field := Nat.mod_eq_of_lt (by omega)
  have hlast : BitVec.ofNat 11 field ≠ 2047#11 := fun h => by
    have := congrArg BitVec.toNat h
    rw [hnat] at this
    simp at this
    omega
  have hfirst : BitVec.ofNat 11 field ≠ 0#11 := fun h => by
    have := congrArg BitVec.toNat h
    rw [hnat] at this
    simp at this
    omega
  have hmantissa : (1#1 ++ BitVec.ofNat 52 m).toNat = m := by
    simp only [BitVec.toNat_append, BitVec.toNat_ofNat]
    change 2 ^ 52 ||| m % 2 ^ 52 = m
    rw [Nat.or_comm, Nat.or_two_pow_eq_add_of_lt (Nat.mod_lt m (Nat.two_pow_pos 52))]
    omega
  simp [unpack, hlast, hfirst, hmantissa, hnat, Format.exponentBias]

/-- The fields of a float without the hidden bit. -/
theorem unpack_packComponents_subnormal (hhigh : m < 2 ^ 52) (hpos : 0 < m) :
    unpack Format.binary64 (packComponents Format.binary64 sign 0#11 (BitVec.ofNat 52 m)) =
      .finite sign m (-1074) hpos := by
  have hnat : (BitVec.ofNat 52 m).toNat = m := Nat.mod_eq_of_lt hhigh
  have hfraction : BitVec.ofNat 52 m ≠ 0#52 := fun h => by
    have := congrArg BitVec.toNat h
    rw [hnat] at this
    simp at this
    omega
  simp [unpack, hfraction, Format.exponentBias]
  omega

/-- A canonical float is read back from its fields. -/
theorem Canonical.unpack_pack (hm : Canonical m e) (hpos : 0 < m) (hrange : e ≤ 971) :
    unpack Format.binary64 (pack Format.binary64 (.finite sign m e hpos)) =
      .finite sign m e hpos := by
  obtain ⟨hlt, hge, hexponent⟩ := hm
  have hfits : ¬ 2047 ≤ (e + 1023 + 52).toNat := by omega
  have hbias : e + Format.binary64.exponentBias + 52 = e + 1023 + 52 := rfl
  by_cases hnormal : 2 ^ 52 ≤ m
  · have hpack : pack Format.binary64 (.finite sign m e hpos) = packComponents Format.binary64 sign
        (BitVec.ofNat 11 (e + 1023 + 52).toNat) (BitVec.ofNat 52 m) := by
      simp [pack, hbias, hfits, log2_of_normal hnormal hlt, Format.mantissaBits]
    rw [hpack, unpack_packComponents_normal (by omega) (by omega) hnormal hlt hpos]
    congr
    omega
  · obtain rfl := hge.resolve_left hnormal
    have hpack : pack Format.binary64 (.finite sign m (-1074) hpos) =
        packComponents Format.binary64 sign 0#11 (BitVec.ofNat 52 m) := by
      have hlog := (Nat.log2_lt hpos.ne').2 (not_le.1 hnormal)
      simp [pack, hbias, Format.mantissaBits, show m.log2 + 1 ≠ 53 by omega]
    rw [hpack, unpack_packComponents_subnormal (not_le.1 hnormal) hpos]

theorem unpack_pack_overflow (hpos : 0 < m) (hrange : 971 < e) :
    unpack Format.binary64 (pack Format.binary64 (.finite sign m e hpos)) = .infinity sign := by
  have hover : 2 ^ 11 ≤ (e + 1023 + 52).toNat + 1 := by omega
  have hpack : pack Format.binary64 (.finite sign m e hpos) =
      pack Format.binary64 (.infinity sign) := by
    exact if_pos hover
  rw [hpack, unpack_pack_infinity]

end TypedRoutes.Decimal
