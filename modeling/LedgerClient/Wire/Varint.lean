/-
Varints: unsigned 64-bit numbers in groups of seven bits, lowest group first,
with the high bit set on every byte but the last.

A varint has at most ten bytes and the tenth may only be 0 or 1, so a reader
never drops a bit; longer spellings of a small number are accepted.
-/
import LedgerClient.Bytes

namespace LedgerClient.Wire.Varint

/-- Seven-bit groups of `n`, at most `more` of them after the first. -/
def writeGroups : (more : Nat) → (n : Nat) → Bytes
  | 0, n => [n.toUInt8]
  | more + 1, n =>
    if n < 128 then [n.toUInt8] else (n % 128 + 128).toUInt8 :: writeGroups more (n / 128)

/-- The shortest varint of `n`. -/
def write (n : UInt64) : Bytes := writeGroups 9 n.toNat

/-- Reads one group and at most `more` further ones. -/
def readGroups : (more : Nat) → Bytes → Option (Nat × Bytes)
  | _, [] => none
  | 0, b :: rest => if b.toNat ≤ 1 then some (b.toNat, rest) else none
  | more + 1, b :: rest =>
    if b.toNat < 128 then some (b.toNat, rest)
    else (readGroups more rest).map fun (n, rest) => (b.toNat - 128 + 128 * n, rest)

/-- The number at the front and what follows it. -/
def read (bs : Bytes) : Option (UInt64 × Bytes) :=
  (readGroups 9 bs).map fun (n, rest) => (n.toUInt64, rest)

/-- The number of bytes `write` takes: one for every seven significant bits begun. -/
def size (n : UInt64) : Nat := n.toNat.log2 / 7 + 1

end LedgerClient.Wire.Varint
