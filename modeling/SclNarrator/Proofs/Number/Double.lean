import Mathlib
import SclNarrator.Number.Double

/-!
Doubles and their bits. A double is known by its bits; a finite one is given by its sign and its size
(`ofUnits?_of_view`), and its negative has the same size (`exists_neg_eq_of_view`). There is one NaN
and one infinity for each sign.
-/

namespace SclNarrator.Double

open Float.Model UnpackedFloat

theorem toNat_packComponents (s : Sign) (e : BitVec 11) (m : BitVec 52) :
    (packComponents Format.binary64 s e m).toNat
      = s.toBitVec.toNat * 2 ^ 63 + e.toNat * 2 ^ 52 + m.toNat := by
  have hs : s.toBitVec.toNat < 2 := s.toBitVec.isLt
  have he : e.toNat < 2 ^ 11 := e.isLt
  have hm : m.toNat < 2 ^ 52 := m.isLt
  rw [packComponents, BitVec.toNat_append, BitVec.toNat_append, ← Nat.shiftLeft_add_eq_or_of_lt hm,
    ← Nat.shiftLeft_add_eq_or_of_lt he, Nat.shiftLeft_eq, Nat.shiftLeft_eq]
  omega

theorem toNat_unpackMantissa (b : BitVec 64) :
    (@unpackMantissa Format.binary64 b).toNat = b.toNat % 2 ^ 52 := by
  simp [unpackMantissa]

theorem toNat_unpackExponent (b : BitVec 64) :
    (@unpackExponent Format.binary64 b).toNat = b.toNat / 2 ^ 52 % 2 ^ 11 := by
  simp [unpackExponent, Nat.shiftRight_eq_div_pow]

theorem toNat_unpackSign (b : BitVec 64) :
    (@unpackSign Format.binary64 b).toNat = b.toNat / 2 ^ 63 := by
  have := b.isLt
  simp [unpackSign, Nat.shiftRight_eq_div_pow]
  omega

def isFiniteBits (bits : Nat) : Bool := bits / 2 ^ 52 % 2 ^ 11 != 2047

theorem unpackExponent_ne (b : BitVec Format.binary64.numBits) (h : isFiniteBits b.toNat = true) :
    unpackExponent b ≠ -1#11 := by
  intro same
  have full : b.toNat / 2 ^ 52 % 2 ^ 11 = 2047 := by
    rw [← toNat_unpackExponent, same]
    rfl
  rw [isFiniteBits, full] at h
  cases h

theorem toNat_toBitVec_neg (s : Sign) : (-s).toBitVec.toNat = 1 - s.toBitVec.toNat := by
  cases s <;> rfl

theorem isNaNBits_of_isFiniteBits {b : BitVec Format.binary64.numBits}
    (h : isFiniteBits b.toNat = true) : isNaNBits b = false :=
  decide_eq_false fun full => unpackExponent_ne b h full.1

theorem toBits_ofBits {bits : UInt64} (h : isFiniteBits bits.toNat = true) :
    (Float.ofBits bits).toBits = bits := by
  apply UInt64.toBitVec_inj.mp
  have here : (Float.ofBits bits).toBits.toBitVec
      = (unpack Format.binary64 bits.toBitVec).pack Format.binary64 := rfl
  rw [here, pack_unpack, isNaNBits_of_isFiniteBits h, if_neg Bool.false_ne_true]

theorem unpack_packComponents_neg (s : Sign) (e : BitVec 11) (m : BitVec 52) :
    unpack Format.binary64 (packComponents Format.binary64 (-s) e m)
      = (unpack Format.binary64 (packComponents Format.binary64 s e m)).neg := by
  simp only [UnpackedFloat.unpack, unpackSign_packComponents, unpackExponent_packComponents,
    unpackMantissa_packComponents, Sign.ofBitVec_toBitVec]
  split
  · split <;> rfl
  · split
    · split <;> rfl
    · rfl

theorem pack_neg_unpack {b : BitVec Format.binary64.numBits} (h : unpackExponent b ≠ -1#11) :
    (unpack Format.binary64 b).neg.pack Format.binary64
      = packComponents Format.binary64 (-Sign.ofBitVec (unpackSign b)) (unpackExponent b)
          (unpackMantissa b) := by
  have parts := packComponents_unpackSign_unpackExponent_unpackMantissa b
  nth_rewrite 1 [← parts]
  rw [← unpack_packComponents_neg, pack_unpack, if_neg]
  intro nan
  have full := (of_decide_eq_true nan).1
  rw [unpackExponent_packComponents] at full
  exact h full

theorem toNat_toBits_neg {x : Float} (h : isFiniteBits x.toBits.toNat = true) :
    (-x).toBits.toNat = (x.toBits.toNat + 2 ^ 63) % 2 ^ 64 := by
  have small := x.toBits.toNat_lt
  have here : (-x).toBits.toBitVec
      = (unpack Format.binary64 x.toBits.toBitVec).neg.pack Format.binary64 := rfl
  rw [← UInt64.toNat_toBitVec, here, pack_neg_unpack (unpackExponent_ne x.toBits.toBitVec h),
    toNat_packComponents, toNat_toBitVec_neg, Sign.toBitVec_ofBitVec, toNat_unpackSign,
    toNat_unpackExponent, toNat_unpackMantissa, UInt64.toNat_toBitVec]
  omega

/-- The gap around a size tells in which binade it lies. -/
theorem gapExponent_eq {units k : Nat} (low : k = 0 ∨ 2 ^ 52 * 2 ^ k ≤ units)
    (high : units < 2 ^ 53 * 2 ^ k) : gapExponent units = k := by
  unfold gapExponent
  by_cases zero : units = 0
  · rcases low with rfl | low
    · rw [zero, Nat.log2_zero]
    · have := Nat.two_pow_pos k
      omega
  have above : units.log2 < 53 + k := by
    rw [Nat.log2_lt zero, Nat.pow_add]
    exact high
  rcases low with rfl | low
  · omega
  · have below : 52 + k ≤ units.log2 := by
      rw [Nat.le_log2 zero, Nat.pow_add]
      exact low
    omega

/-- A number of units with at most 53 significant bits, so that it is the size of a double unless it is
too large: the significant bits and the gap to its neighbours. -/
structure IsSize (units m k : Nat) : Prop where
  eq : units = m * 2 ^ k
  lt : m < 2 ^ 53
  normal : k = 0 ∨ 2 ^ 52 ≤ m

variable {units m k : Nat}

theorem IsSize.gapExponent_eq (h : IsSize units m k) : gapExponent units = k := by
  have pos := Nat.two_pow_pos k
  rw [h.eq]
  refine Double.gapExponent_eq (h.normal.imp_right fun normal => ?_) ?_
  · exact Nat.mul_le_mul_right _ normal
  · exact Nat.mul_lt_mul_of_pos_right h.lt pos

/-- The bits of a finite double: its sign, the exponent of its gap, and its significant bits. -/
theorem bits_of_view {x : Float} {negative : Bool} (h : view x = .finite negative units) :
    ∃ m k, IsSize units m k ∧ k < 2046 ∧
      x.toBits.toNat = negative.toNat * 2 ^ 63 + (k * 2 ^ 52 + m) := by
  have small := x.toBits.toNat_lt
  have sign : (decide (2 ^ 63 ≤ x.toBits.toNat)).toNat * 2 ^ 63
      = x.toBits.toNat / 2 ^ 63 * 2 ^ 63 := by
    by_cases large : 2 ^ 63 ≤ x.toBits.toNat
    · rw [decide_eq_true large, Bool.toNat_true]
      omega
    · rw [decide_eq_false large, Bool.toNat_false, Nat.div_eq_of_lt (Nat.not_le.mp large)]
  simp only [view, Nat.pow_eq] at h
  split at h
  · split at h <;> cases h
  · next finite =>
    split at h
    · next subnormal =>
      cases h
      refine ⟨x.toBits.toNat % 2 ^ 52, 0, ⟨by simp, by omega, .inl rfl⟩, by omega, ?_⟩
      rw [sign]
      omega
    · next normal =>
      cases h
      have normalized : 2 ^ 52 ≤ 2 ^ 52 + x.toBits.toNat % 2 ^ 52 := by omega
      have below : x.toBits.toNat / 2 ^ 52 % 2 ^ 11 - 1 < 2046 := by omega
      refine ⟨_, _, ⟨rfl, by omega, .inr normalized⟩, below, ?_⟩
      rw [sign]
      omega

theorem ofUnits?_eq {negative : Bool} (size : IsSize units m k) (small : k < 2046) :
    ofUnits? negative units
      = some (Float.ofBits (UInt64.ofNat (negative.toNat * 2 ^ 63 + (k * 2 ^ 52 + m)))) := by
  have quotient : units / 2 ^ k = m := by
    rw [size.eq, Nat.mul_div_cancel _ (Nat.two_pow_pos k)]
  have lt := size.lt
  simp only [ofUnits?, size.gapExponent_eq, Nat.pow_eq, quotient]
  rw [if_pos (by omega)]
  cases negative <;> simp

theorem isFiniteBits_of_size (size : IsSize units m k) (small : k < 2046) :
    isFiniteBits (k * 2 ^ 52 + m) = true := by
  have lt := size.lt
  have normal := size.normal
  simp only [isFiniteBits, bne_iff_ne, ne_eq]
  omega

/-- A finite double is the one of its sign and size. -/
theorem ofUnits?_of_view {x : Float} {negative : Bool} (h : view x = .finite negative units) :
    ofUnits? negative units = some x := by
  obtain ⟨m, k, size, small, bits⟩ := bits_of_view h
  rw [ofUnits?_eq size small, ← bits, UInt64.ofNat_toNat, Float.ofBits_toBits]

/-- A finite negative double is the negative of the one of its size. -/
theorem exists_neg_eq_of_view {x : Float} (h : view x = .finite true units) :
    ∃ y, ofUnits? false units = some y ∧ -y = x := by
  obtain ⟨m, k, size, small, bits⟩ := bits_of_view h
  have lt := size.lt
  refine ⟨_, ofUnits?_eq size small, ?_⟩
  have word : (UInt64.ofNat (false.toNat * 2 ^ 63 + (k * 2 ^ 52 + m))).toNat = k * 2 ^ 52 + m := by
    rw [UInt64.toNat_ofNat']
    simp only [Bool.toNat_false]
    omega
  have finite := isFiniteBits_of_size size small
  have kept := toBits_ofBits (by rwa [word])
  apply Float.toBits_inj.mp
  apply UInt64.toNat_inj.mp
  rw [toNat_toBits_neg (by rwa [kept, word]), kept, word, bits]
  simp only [Bool.toNat_true]
  omega

theorem eq_nan_of_view {x : Float} (h : view x = .nan) : x = nan := by
  simp only [view, Nat.pow_eq] at h
  split at h
  · next top =>
    split at h
    · cases h
    · next nonzero =>
      have exponent : @unpackExponent Format.binary64 x.toBits.toBitVec = -1#11 := by
        apply BitVec.eq_of_toNat_eq
        rw [toNat_unpackExponent, UInt64.toNat_toBitVec, top]
        rfl
      have mantissa : @unpackMantissa Format.binary64 x.toBits.toBitVec ≠ 0#52 := by
        intro isZero
        have := congrArg BitVec.toNat isZero
        rw [toNat_unpackMantissa, UInt64.toNat_toBitVec] at this
        exact nonzero this
      have bits := x.toModel.valid.eq_packedNaN exponent mantissa
      apply Float.toBits_inj.mp
      apply UInt64.toBitVec_inj.mp
      rw [show x.toBits.toBitVec = _ from bits]
      decide
  · split at h <;> cases h

theorem eq_infinityOf_of_view {x : Float} {negative : Bool} (h : view x = .infinite negative) :
    x = infinityOf negative := by
  have small := x.toBits.toNat_lt
  simp only [view, Nat.pow_eq] at h
  split at h
  · next top =>
    split at h
    · next zero =>
      cases h
      apply Float.toBits_inj.mp
      apply UInt64.toNat_inj.mp
      by_cases large : 2 ^ 63 ≤ x.toBits.toNat
      · rw [decide_eq_true large]
        have : (infinityOf true).toBits.toNat = 0xfff0000000000000 := by decide
        omega
      · rw [decide_eq_false large]
        have : (infinityOf false).toBits.toNat = 0x7ff0000000000000 := by decide
        omega
    · cases h
  · split at h <;> cases h

theorem neg_infinity : -infinity = negInfinity := by decide

end SclNarrator.Double
