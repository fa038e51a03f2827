import Mathlib.Algebra.GroupWithZero.Nat
import TileConsole.Bytes

namespace TileConsole.Bytes

-- Reading back keeps the part of a number that fits.
theorem toNat_littleEndian (count n : Nat) : toNat (littleEndian count n) = n % 256 ^ count := by
  induction count generalizing n with
  | zero => simp [littleEndian, toNat, Nat.mod_one]
  | succ count ih =>
    have low : (UInt8.ofNat n).toNat = n % 256 := UInt8.toNat_ofNat'
    rw [littleEndian, toNat, ih, low, Nat.pow_succ', Nat.mod_mul]

-- So does writing what bytes spell.
theorem littleEndian_toNat (bytes : Bytes) : littleEndian bytes.length (toNat bytes) = bytes := by
  induction bytes with
  | nil => rfl
  | cons b rest ih =>
    have hb := b.toNat_lt
    have hlow : UInt8.ofNat (b.toNat + 256 * toNat rest) = b := by
      apply UInt8.toNat_inj.mp
      rw [UInt8.toNat_ofNat']
      omega
    have hhigh : (b.toNat + 256 * toNat rest) / 256 = toNat rest := by omega
    rw [List.length_cons, toNat, littleEndian, hlow, hhigh, ih]

theorem toNat_lt (bytes : Bytes) : toNat bytes < 256 ^ bytes.length := by
  induction bytes with
  | nil => decide
  | cons b rest ih =>
    have hb := b.toNat_lt
    rw [List.length_cons, toNat, Nat.pow_succ]
    omega

theorem toNat_littleEndian_word {n : Nat} (h : n ≤ 0xFFFF) : toNat (littleEndian 2 n) = n := by
  rw [toNat_littleEndian]
  exact Nat.mod_eq_of_lt (by omega)

theorem toNat_word {n : Nat} (h : n ≤ 0xFFFF) : (UInt16.ofNat n).toNat = n := by
  rw [UInt16.toNat_ofNat']
  exact Nat.mod_eq_of_lt (by omega)

-- The two halves of a byte as numbers.
theorem toNat_high (b : UInt8) : (b >>> 4 : UInt8).toNat = b.toNat / 16 := by
  rw [UInt8.toNat_shiftRight, Nat.shiftRight_eq_div_pow]
  rfl

theorem toNat_low (b : UInt8) : (b &&& 0x0F : UInt8).toNat = b.toNat % 16 := by
  rw [UInt8.toNat_and]
  exact Nat.and_two_pow_sub_one_eq_mod b.toNat 4

theorem toNat_packed (high low : UInt8) :
    (((high &&& 0x0F) <<< 4) ||| (low &&& 0x0F) : UInt8).toNat =
      16 * (high.toNat % 16) + low.toNat % 16 := by
  have hdouble : (high.toNat % 16) <<< 4 = 16 * (high.toNat % 16) := by
    rw [Nat.shiftLeft_eq, Nat.mul_comm]
  have hshift : ((high &&& 0x0F) <<< 4 : UInt8).toNat = (high.toNat % 16) <<< 4 := by
    rw [UInt8.toNat_shiftLeft, toNat_low]
    exact Nat.mod_eq_of_lt (by show (high.toNat % 16) <<< 4 < 256; omega)
  have hlow : low.toNat % 16 < 2 ^ 4 := Nat.mod_lt _ (by decide)
  rw [UInt8.toNat_or, hshift, toNat_low, ← Nat.shiftLeft_add_eq_or_of_lt hlow, hdouble]

end TileConsole.Bytes
