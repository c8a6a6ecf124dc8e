import FlakeWm.Schemes.Reciprocal
import Mathlib.Data.Nat.Basic
import Mathlib.Tactic.NormNum

/-! The remainder of the hash table, which divides by multiplying (`fast_urem32`). -/

namespace FlakeWm.Hashing

open Reciprocal

/-- `REMAINDER_MAGIC`. -/
def remainderMagic (divisor : UInt32) : UInt64 := 0xffffffffffffffff / divisor.toUInt64 + 1

/-- `fast_urem32` where there are integers of 128 bits. -/
def fastUrem32 (n d : UInt32) (magic : UInt64) : UInt32 :=
  let lowbits := magic * n.toUInt64
  ⟨((lowbits.toBitVec.setWidth 128 * d.toBitVec.setWidth 128) >>> 64).setWidth 32⟩

/-- `fast_urem32` where there are none. -/
def fastUrem32Portable (n d : UInt32) (magic : UInt64) : UInt32 :=
  let lowbits := magic * n.toUInt64
  let b0 := lowbits.toUInt32
  let b1 := (lowbits >>> 32).toUInt32
  (((d.toUInt64 * b0.toUInt64) >>> 32 + d.toUInt64 * b1.toUInt64) >>> 32).toUInt32

theorem remainderMagic_toNat (d : UInt32) :
    (remainderMagic d).toNat = reciprocal (2 ^ 64) d.toNat % 2 ^ 64 := by
  simp [remainderMagic, reciprocal]

/-- The low bits of the product are those of the product with the reciprocal. -/
theorem lowbits_toNat (n d : UInt32) :
    (remainderMagic d * n.toUInt64).toNat = reciprocal (2 ^ 64) d.toNat * n.toNat % 2 ^ 64 := by
  rw [UInt64.toNat_mul, remainderMagic_toNat, UInt32.toNat_toUInt64, Nat.mod_mul_mod]

/-- The variant for 128 bits takes the high word of the whole product. -/
theorem fastUrem32_toNat (n d : UInt32) (magic : UInt64) :
    (fastUrem32 n d magic).toNat = (magic * n.toUInt64).toNat * d.toNat / 2 ^ 64 := by
  have hlow : (magic * n.toUInt64).toNat < 2 ^ 64 := UInt64.toNat_lt _
  have hd : d.toNat < 2 ^ 32 := UInt32.toNat_lt _
  have hproduct : (magic * n.toUInt64).toNat * d.toNat < 2 ^ 128 := by
    calc (magic * n.toUInt64).toNat * d.toNat ≤ 2 ^ 64 * 2 ^ 32 := Nat.mul_le_mul hlow.le hd.le
      _ < 2 ^ 128 := by norm_num
  have hhigh : (magic * n.toUInt64).toNat * d.toNat / 2 ^ 64 < 2 ^ 32 :=
    Nat.div_lt_of_lt_mul (Nat.mul_lt_mul_of_le_of_lt hlow.le hd (by norm_num))
  have hlow' : (magic * n.toUInt64).toBitVec.toNat % 2 ^ 128 = (magic * n.toUInt64).toNat :=
    Nat.mod_eq_of_lt (hlow.trans (by norm_num))
  have hd' : d.toBitVec.toNat % 2 ^ 128 = d.toNat := Nat.mod_eq_of_lt (hd.trans (by norm_num))
  simp only [fastUrem32]
  rw [UInt32.toNat, BitVec.toNat_setWidth, BitVec.toNat_ushiftRight, BitVec.toNat_mul, BitVec.toNat_setWidth,
    BitVec.toNat_setWidth, hlow', hd', Nat.mod_eq_of_lt hproduct, Nat.shiftRight_eq_div_pow, Nat.mod_eq_of_lt hhigh]

/-- The portable variant takes the same word: the carry it drops is below the word. -/
theorem fastUrem32Portable_toNat (n d : UInt32) (magic : UInt64) :
    (fastUrem32Portable n d magic).toNat = (magic * n.toUInt64).toNat * d.toNat / 2 ^ 64 := by
  simp only [fastUrem32Portable]
  generalize magic * n.toUInt64 = lowbits
  have hlow : lowbits.toNat < 2 ^ 64 := UInt64.toNat_lt _
  have hd : d.toNat < 2 ^ 32 := UInt32.toNat_lt _
  have hb0 : lowbits.toUInt32.toUInt64.toNat = lowbits.toNat % 2 ^ 32 := by simp
  have hb1 : (lowbits >>> 32).toUInt32.toUInt64.toNat = lowbits.toNat / 2 ^ 32 := by
    simp [Nat.shiftRight_eq_div_pow]
    omega
  have h0 : lowbits.toNat % 2 ^ 32 < 2 ^ 32 := Nat.mod_lt _ (by norm_num)
  have h1 : lowbits.toNat / 2 ^ 32 < 2 ^ 32 := Nat.div_lt_of_lt_mul hlow
  have hword : 2 ^ 64 = 2 ^ 32 * 2 ^ 32 := rfl
  have hsum := halves_lt hd h0 h1
  have hfirst : d.toNat * (lowbits.toNat % 2 ^ 32) < 2 ^ 64 := by
    rw [hword]
    exact Nat.mul_lt_mul'' hd h0
  have hsecond : d.toNat * (lowbits.toNat / 2 ^ 32) < 2 ^ 64 := by
    rw [hword]
    exact Nat.mul_lt_mul'' hd h1
  have hresult : (d.toNat * (lowbits.toNat % 2 ^ 32) / 2 ^ 32 + d.toNat * (lowbits.toNat / 2 ^ 32)) / 2 ^ 32 < 2 ^ 32 :=
    Nat.div_lt_of_lt_mul hsum
  rw [UInt64.toNat_toUInt32, UInt64.toNat_shiftRight, UInt64.toNat_add, UInt64.toNat_shiftRight, UInt64.toNat_mul,
    UInt64.toNat_mul, hb0, hb1, UInt32.toNat_toUInt64, Nat.mod_eq_of_lt hfirst, Nat.mod_eq_of_lt hsecond]
  simp only [UInt64.reduceToNat, Nat.reduceMod, Nat.shiftRight_eq_div_pow]
  rw [hword, Nat.mod_eq_of_lt hsum, Nat.mod_eq_of_lt hresult, high_of_halves _ _ _ _ (by norm_num), Nat.div_add_mod']

/-- `fast_urem32` is the remainder, in both variants. -/
theorem fast_urem32_is_remainder (n d : UInt32) (hd : 1 ≤ d) :
    fastUrem32 n d (remainderMagic d) = n % d ∧ fastUrem32Portable n d (remainderMagic d) = n % d := by
  have hpos : 0 < d.toNat := UInt32.le_iff_toNat_le.1 hd
  have hsize : n.toNat * d.toNat ≤ 2 ^ 64 :=
    (Nat.mul_lt_mul'' (UInt32.toNat_lt n) (UInt32.toNat_lt d)).le
  have hmod := reciprocal_mod hpos hsize (by norm_num)
  constructor
  · rw [← UInt32.toNat_inj, fastUrem32_toNat, lowbits_toNat, UInt32.toNat_mod, hmod]
  · rw [← UInt32.toNat_inj, fastUrem32Portable_toNat, lowbits_toNat, UInt32.toNat_mod, hmod]

theorem remainder_of_largest : fastUrem32 4294967295 4294967294 (remainderMagic 4294967294) = 1 ∧
    fastUrem32Portable 4294967295 4294967294 (remainderMagic 4294967294) = 1 := by
  have h := fast_urem32_is_remainder 4294967295 4294967294 (by decide)
  have hmod : (4294967295 : UInt32) % 4294967294 = 1 := by decide
  rwa [hmod] at h

end FlakeWm.Hashing
