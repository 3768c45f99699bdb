import Mathlib
import SpecTree.Number.Binary64
import SpecTree.Number.Nearest

/-!
# The bits of doubles

Bits that are made a double are the bits of that double, unless they stand for no number, and a
double is negated by its first bit. Main statements:

* `toNat_toBits_ofBits`, `toNat_toBits_neg_ofBits`: the bits of a double and of its negative;
* `binary?_ofBits`: the exact value that bits stand for.
-/

namespace SpecTree.Number

open Float.Model (Format UnpackedFloat)
open Float.Model.UnpackedFloat (Sign pack unpack packComponents unpackSign unpackExponent
  unpackMantissa)

/-! ## Three fields -/

theorem toNat_one_append (mantissa : BitVec 52) :
    (1#1 ++ mantissa).toNat = 2 ^ 52 + mantissa.toNat := by
  have hlt := mantissa.isLt
  rw [BitVec.toNat_append, ← Nat.shiftLeft_add_eq_or_of_lt hlt]
  rfl

/-- A double that is given by its three fields. -/
def ofFields (sign : Sign) (exponent : BitVec 11) (mantissa : BitVec 52) : UnpackedFloat :=
  if exponent = -1#11 then if mantissa = 0#52 then .infinity sign else .notANumber
  else if exponent = 0#11 then
    if h : mantissa = 0#52 then .zero sign
    else .finite sign mantissa.toNat (exponent.toNat - (1023 + 52 : Nat) + 1)
      (Nat.pos_of_ne_zero fun hzero => h (BitVec.eq_of_toNat_eq hzero))
  else .finite sign (1#1 ++ mantissa).toNat (exponent.toNat - (1023 + 52 : Nat))
    (by rw [toNat_one_append]; omega)

theorem unpack_eq (b : BitVec 64) : unpack Format.binary64 b =
    ofFields (Sign.ofBitVec (@unpackSign Format.binary64 b)) (@unpackExponent Format.binary64 b)
      (@unpackMantissa Format.binary64 b) :=
  rfl

theorem neg_ofFields (sign : Sign) (exponent : BitVec 11) (mantissa : BitVec 52) :
    (ofFields sign exponent mantissa).neg = ofFields (-sign) exponent mantissa := by
  unfold ofFields
  split
  · split <;> rfl
  · split
    · split <;> rfl
    · rfl

/-- Without an exponent there are less than 53 binary digits. -/
theorem pack_subnormal (sign : Sign) {mantissa : BitVec 52} (h : 0 < mantissa.toNat) :
    pack Format.binary64
        (.finite sign mantissa.toNat ((0#11).toNat - (1023 + 52 : Nat) + 1) h) =
      packComponents Format.binary64 sign 0#11 mantissa := by
  have hmantissa := mantissa.isLt
  have hlog : mantissa.toNat.log2 + 1 ≠ Format.binary64.mantissaBits := by
    have hlt := (Nat.log2_lt (Nat.ne_of_gt h)).2 hmantissa
    show mantissa.toNat.log2 + 1 ≠ 53
    omega
  unfold pack
  dsimp only
  rw [if_neg (by decide), if_neg hlog]
  exact congrArg (packComponents Format.binary64 sign 0#11)
    (BitVec.eq_of_toNat_eq (Nat.mod_eq_of_lt hmantissa))

/-- With an exponent there are 53 binary digits, and the first is left out. -/
theorem pack_normal (sign : Sign) {exponent : BitVec 11} (mantissa : BitVec 52)
    (hbelow : exponent.toNat ≠ 2047) (h : 0 < (1#1 ++ mantissa).toNat) :
    pack Format.binary64
        (.finite sign (1#1 ++ mantissa).toNat (exponent.toNat - (1023 + 52 : Nat)) h) =
      packComponents Format.binary64 sign exponent mantissa := by
  have hexponent := exponent.isLt
  have hmantissa := mantissa.isLt
  have hlog : (1#1 ++ mantissa).toNat.log2 + 1 = Format.binary64.mantissaBits := by
    rw [toNat_one_append]
    have hne : 2 ^ 52 + mantissa.toNat ≠ 0 := by omega
    have hlow := (Nat.le_log2 hne).2 (Nat.le_add_right (2 ^ 52) mantissa.toNat)
    have hhigh := (Nat.log2_lt hne).2 (show 2 ^ 52 + mantissa.toNat < 2 ^ 53 by omega)
    show (2 ^ 52 + mantissa.toNat).log2 + 1 = 53
    omega
  have hbiased : ((exponent.toNat - (1023 + 52 : Nat) : Int) + Format.binary64.exponentBias +
      (52 : Nat)).toNat = exponent.toNat := by
    show ((exponent.toNat - (1023 + 52 : Nat) : Int) + (1023 : Nat) + (52 : Nat)).toNat = _
    omega
  have hpacked : BitVec.ofNat 52 (1#1 ++ mantissa).toNat = mantissa := by
    apply BitVec.eq_of_toNat_eq
    rw [BitVec.toNat_ofNat, toNat_one_append]
    omega
  unfold pack
  dsimp only
  rw [hbiased, if_neg (by omega), if_pos hlog, BitVec.ofNat_toNat]
  exact congrArg (packComponents Format.binary64 sign exponent) hpacked

/-- Fields that stand for a number are packed as they are. -/
theorem pack_ofFields (sign : Sign) {exponent : BitVec 11} {mantissa : BitVec 52}
    (h : exponent = -1#11 → mantissa = 0#52) :
    pack Format.binary64 (ofFields sign exponent mantissa) =
      packComponents Format.binary64 sign exponent mantissa := by
  unfold ofFields
  split
  · next hinfinite =>
    rw [if_pos (h hinfinite), hinfinite, h hinfinite]
    rfl
  · next hfinite =>
    split
    · next hzero =>
      subst hzero
      split
      · next hnone =>
        rw [hnone]
        rfl
      · exact pack_subnormal sign _
    · have hbelow : exponent.toNat ≠ 2047 := fun heq => hfinite (BitVec.eq_of_toNat_eq heq)
      exact pack_normal sign mantissa hbelow _

/-! ## Bits -/

theorem toNat_packComponents (sign : Sign) (exponent : BitVec 11) (mantissa : BitVec 52) :
    (packComponents Format.binary64 sign exponent mantissa).toNat =
      2 ^ 63 * sign.toBitVec.toNat + (2 ^ 52 * exponent.toNat + mantissa.toNat) := by
  have hexponent := exponent.isLt
  have hmantissa := mantissa.isLt
  show ((sign.toBitVec ++ exponent) ++ mantissa).toNat = _
  rw [BitVec.toNat_append, ← Nat.shiftLeft_add_eq_or_of_lt hmantissa, BitVec.toNat_append,
    ← Nat.shiftLeft_add_eq_or_of_lt hexponent, Nat.shiftLeft_eq, Nat.shiftLeft_eq]
  omega

variable {n : Nat}

/-- The fields of bits without a sign. -/
theorem ofNat_eq_packComponents (h : n ≤ infinityBits) :
    BitVec.ofNat 64 n = packComponents Format.binary64 .positive
      (BitVec.ofNat 11 (n / 2 ^ 52)) (BitVec.ofNat 52 n) := by
  have hn : n ≤ 2047 * 2 ^ 52 := h
  apply BitVec.eq_of_toNat_eq
  have hpositive : Sign.positive.toBitVec.toNat = 0 := rfl
  rw [toNat_packComponents, hpositive, BitVec.toNat_ofNat, BitVec.toNat_ofNat, BitVec.toNat_ofNat]
  omega

theorem unpackSign_packComponents (sign : Sign) (exponent : BitVec 11) (mantissa : BitVec 52) :
    @unpackSign Format.binary64 (packComponents Format.binary64 sign exponent mantissa) =
      sign.toBitVec := by
  have hsign := sign.toBitVec.isLt
  have hexponent := exponent.isLt
  have hmantissa := mantissa.isLt
  apply BitVec.eq_of_toNat_eq
  unfold unpackSign
  rw [BitVec.toNat_cast, BitVec.extractLsb_toNat, toNat_packComponents, Nat.shiftRight_eq_div_pow]
  show (2 ^ 63 * sign.toBitVec.toNat + (2 ^ 52 * exponent.toNat + mantissa.toNat)) / 2 ^ 63 %
    2 ^ 1 = sign.toBitVec.toNat
  omega

/-- Fields that stand for a number come apart and together again. -/
theorem unpack_packComponents (sign : Sign) (exponent : BitVec 11) (mantissa : BitVec 52) :
    unpack Format.binary64 (packComponents Format.binary64 sign exponent mantissa) =
      ofFields sign exponent mantissa := by
  have hsign : Sign.ofBitVec sign.toBitVec = sign := by cases sign <;> rfl
  rw [unpack_eq, unpackSign_packComponents, hsign]
  exact congrArg₂ (ofFields sign) Float.Model.UnpackedFloat.unpackExponent_packComponents
    Float.Model.UnpackedFloat.unpackMantissa_packComponents

/-- The fields of bits without a sign stand for a number. -/
theorem isNumber_of_le (h : n ≤ infinityBits) :
    BitVec.ofNat 11 (n / 2 ^ 52) = -1#11 → BitVec.ofNat 52 n = 0#52 := by
  have hn : n ≤ 2047 * 2 ^ 52 := h
  intro hinfinite
  have hexponent : n / 2 ^ 52 % 2 ^ 11 = 2047 := congrArg BitVec.toNat hinfinite
  apply BitVec.eq_of_toNat_eq
  rw [BitVec.toNat_ofNat]
  show n % 2 ^ 52 = 0
  omega

/-- The bits of a double that is made of bits. -/
theorem toNat_toBits_ofBits (h : n ≤ infinityBits) :
    (Float.ofBits (UInt64.ofNat n)).toBits.toNat = n := by
  have hn : n ≤ 2047 * 2 ^ 52 := h
  show (pack Format.binary64 (unpack Format.binary64 (BitVec.ofNat 64 n))).toNat = n
  rw [ofNat_eq_packComponents h, unpack_packComponents, pack_ofFields _ (isNumber_of_le h),
    ← ofNat_eq_packComponents h]
  exact Nat.mod_eq_of_lt (by omega)

/-- The bits of the negative of a double have the first one set. -/
theorem toNat_toBits_neg_ofBits (h : n ≤ infinityBits) :
    (-Float.ofBits (UInt64.ofNat n)).toBits.toNat = 2 ^ 63 + n := by
  have hn : n ≤ 2047 * 2 ^ 52 := h
  show (pack Format.binary64 (unpack Format.binary64
    (pack Format.binary64 (unpack Format.binary64 (BitVec.ofNat 64 n)))).neg).toNat = _
  have hnegative : (-Sign.positive).toBitVec.toNat = 1 := rfl
  rw [ofNat_eq_packComponents h, unpack_packComponents, pack_ofFields _ (isNumber_of_le h),
    unpack_packComponents, neg_ofFields, pack_ofFields _ (isNumber_of_le h), toNat_packComponents,
    hnegative, BitVec.toNat_ofNat, BitVec.toNat_ofNat]
  omega

/-! ## Exact values -/

/-- A double, or its negative. -/
def signed (negative : Bool) (x : Float) : Float := if negative then -x else x

theorem toNat_toBits_signed (h : n ≤ infinityBits) (negative : Bool) :
    (signed negative (Float.ofBits (UInt64.ofNat n))).toBits.toNat =
      2 ^ 63 * negative.toNat + n := by
  cases negative with
  | false => exact (toNat_toBits_ofBits h).trans (Nat.zero_add n).symm
  | true => exact toNat_toBits_neg_ofBits h

theorem beq_one_toNat (negative : Bool) : (negative.toNat == 1) = negative := by
  cases negative <;> rfl

theorem binary?_infinity (negative : Bool) :
    binary? (signed negative (Float.ofBits (UInt64.ofNat infinityBits))) = none := by
  have hbits := toNat_toBits_signed (Nat.le_refl infinityBits) negative
  have hexponent : (2 ^ 63 * negative.toNat + 2047 * 2 ^ 52) / 2 ^ 52 % 2 ^ 11 = 2047 := by
    have := negative.toNat_le
    omega
  unfold binary?
  dsimp only
  rw [hbits]
  exact if_pos hexponent

/-- The exact value of a double whose bits are an exponent and a mantissa, which goes up to the
next exponent unless the mantissa is less than `2 ^ 52`. -/
theorem binary?_ofBits {exponent mantissa : Nat} (hmantissa : mantissa < 2 ^ 53)
    (hexponent : 2 ^ 52 ≤ mantissa ∨ exponent = 0)
    (h : exponent * 2 ^ 52 + mantissa < infinityBits) (negative : Bool) :
    binary? (signed negative (Float.ofBits (UInt64.ofNat (exponent * 2 ^ 52 + mantissa)))) =
      some ⟨negative, mantissa, exponent - 1074⟩ := by
  have hsign := negative.toNat_le
  have hfinite : exponent * 2 ^ 52 + mantissa < 2047 * 2 ^ 52 := h
  have hbits := toNat_toBits_signed (Nat.le_of_lt h) negative
  -- the three fields are read off as they were put together:
  have hnegative : (2 ^ 63 * negative.toNat + (exponent * 2 ^ 52 + mantissa)) / 2 ^ 63 =
      negative.toNat := by omega
  have hfield : (2 ^ 63 * negative.toNat + (exponent * 2 ^ 52 + mantissa)) / 2 ^ 52 % 2 ^ 11 =
      exponent + mantissa / 2 ^ 52 := by omega
  have hfraction : (2 ^ 63 * negative.toNat + (exponent * 2 ^ 52 + mantissa)) % 2 ^ 52 =
      mantissa % 2 ^ 52 := by omega
  unfold binary? powerOfTwo
  dsimp only
  simp only [hbits, Nat.pow_eq, hnegative, hfield, hfraction, beq_one_toNat]
  rw [if_neg (by omega)]
  split
  · next hzero =>
    obtain ⟨rfl, hsmall⟩ := Nat.add_eq_zero_iff.1 hzero
    have hmod : mantissa % 2 ^ 52 = mantissa := by omega
    rw [hmod]
    rfl
  · next hpositive =>
    have hnormal : mantissa / 2 ^ 52 = 1 := by omega
    have hwhole : 2 ^ 52 + mantissa % 2 ^ 52 = mantissa := by omega
    have hplace : ((exponent + mantissa / 2 ^ 52 : Nat) : Int) - 1075 = exponent - 1074 := by omega
    rw [hwhole, hplace]

end SpecTree.Number
