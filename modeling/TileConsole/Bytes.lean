namespace TileConsole

abbrev Bytes := List UInt8

namespace Bytes

-- The low `count` bytes of a number, the least significant one first.
def littleEndian : Nat → Nat → Bytes
  | 0, _ => []
  | count + 1, n => UInt8.ofNat n :: littleEndian count (n / 256)

-- The number that bytes spell, the least significant one first.
def toNat : Bytes → Nat
  | [] => 0
  | b :: rest => b.toNat + 256 * toNat rest

-- A 16-bit value read as signed.
def signed16 (n : Nat) : Int :=
  Int.bmod n 65536

-- A 32-bit value read as signed.
def signed32 (n : Nat) : Int :=
  Int.bmod n 4294967296

@[simp]
theorem length_littleEndian (count n : Nat) : (littleEndian count n).length = count := by
  induction count generalizing n with
  | zero => rfl
  | succ count ih => simp [littleEndian, ih]

end Bytes

end TileConsole
