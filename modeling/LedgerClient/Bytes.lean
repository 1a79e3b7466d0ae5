/-
Byte strings, their hexadecimal text and the numbers they spell.

A byte string is a list of bytes, so that every reader in this library is a
function on lists and every writer a concatenation.
-/

namespace LedgerClient

abbrev Bytes := List UInt8

namespace Bytes

/-! ## Hexadecimal text -/

/-- The lower-case hexadecimal digit of a number below sixteen. -/
def hexDigit (n : Nat) : Char :=
  if n < 10 then Char.ofNat (48 + n) else Char.ofNat (87 + n)

/-- Two lower-case digits a byte. -/
def toHex (bs : Bytes) : String :=
  String.ofList (bs.flatMap fun b => [hexDigit (b.toNat / 16), hexDigit (b.toNat % 16)])

/-- The value of a hexadecimal digit of either case. -/
def hexValue? (c : Char) : Option Nat :=
  if '0' ≤ c ∧ c ≤ '9' then some (c.toNat - 48)
  else if 'a' ≤ c ∧ c ≤ 'f' then some (c.toNat - 87)
  else if 'A' ≤ c ∧ c ≤ 'F' then some (c.toNat - 55)
  else none

def ofHexDigits? : List Char → Option Bytes
  | [] => some []
  | [_] => none
  | hi :: lo :: rest => do
    let h ← hexValue? hi
    let l ← hexValue? lo
    let bs ← ofHexDigits? rest
    return (16 * h + l).toUInt8 :: bs

def ofHex? (s : String) : Option Bytes := ofHexDigits? s.toList

/-! ## Numbers, most significant byte first -/

/-- The number whose base-256 digits are `bs`. -/
def toNat (bs : Bytes) : Nat := bs.foldl (fun n b => 256 * n + b.toNat) 0

/-- The lowest `width` base-256 digits of `n`. -/
def ofNat : (width : Nat) → (n : Nat) → Bytes
  | 0, _ => []
  | w + 1, n => ofNat w (n / 256) ++ [n.toUInt8]

/-- The base-256 digits of `n` without leading zeros, at most `fuel` of them; none for zero. -/
def digitsUpTo : (fuel : Nat) → (n : Nat) → Bytes
  | 0, _ => []
  | fuel + 1, n => if n = 0 then [] else digitsUpTo fuel (n / 256) ++ [n.toUInt8]

/-- The shortest base-256 spelling of `n`, empty for zero. -/
def digits (n : Nat) : Bytes := digitsUpTo (n.log2 / 8 + 1) n

end Bytes

end LedgerClient
