/-
Distinguished encoding: a tag, a length and a content, each in the only form
allowed.

Lengths below 128 take one byte; longer ones take the fewest bytes behind a
count. Numbers are two's complement without a redundant first byte. The reader
refuses every other form, so that what it reads has one spelling.
-/
import LedgerClient.Bytes

namespace LedgerClient.Der

/-! ## Tags -/

def integerTag : UInt8 := 0x02
def bitStringTag : UInt8 := 0x03
def octetStringTag : UInt8 := 0x04
def objectIdTag : UInt8 := 0x06
def sequenceTag : UInt8 := 0x30

/-- The tag of the constructed context-specific element `n`. -/
def contextTag (n : Nat) : UInt8 := (0xA0 + n).toUInt8

/-! ## Writing -/

def length (n : Nat) : Bytes :=
  if n < 0x80 then [n.toUInt8] else (0x80 + (Bytes.digits n).length).toUInt8 :: Bytes.digits n

def element (tag : UInt8) (content : Bytes) : Bytes := tag :: length content.length ++ content

/-- The content of a non-negative number: its shortest spelling, one byte at least, behind a zero
byte when its first bit is set. -/
def natContent (n : Nat) : Bytes :=
  match Bytes.digits n with
  | [] => [0]
  | b :: bs => if b < 0x80 then b :: bs else 0 :: b :: bs

def integer (n : Nat) : Bytes := element integerTag (natContent n)

def octetString (content : Bytes) : Bytes := element octetStringTag content

def sequence (content : Bytes) : Bytes := element sequenceTag content

/-! ## Reading -/

/-- A length and what follows it. -/
def readLength : Bytes → Option (Nat × Bytes)
  | [] => none
  | b :: rest =>
    if b < 0x80 then some (b.toNat, rest)
    else
      let count := b.toNat - 0x80
      let digits := rest.take count
      if digits.length = count ∧ digits.head? ≠ some 0 ∧ 0x80 ≤ Bytes.toNat digits then
        some (Bytes.toNat digits, rest.drop count)
      else none

/-- The content of an element that has the given tag, and what follows it. -/
def read (tag : UInt8) : Bytes → Option (Bytes × Bytes)
  | [] => none
  | b :: rest =>
    if b ≠ tag then none
    else
      (readLength rest).bind fun (n, rest) =>
        if n ≤ rest.length then some (rest.take n, rest.drop n) else none

/-- The content of the only element of the input. -/
def readOnly (tag : UInt8) (bs : Bytes) : Option Bytes :=
  match read tag bs with
  | some (content, []) => some content
  | _ => none

/-- The number that the content of an integer spells, if it is not negative and in shortest form. -/
def natOfContent? : Bytes → Option Nat
  | [] => none
  | [b] => if b < 0x80 then some b.toNat else none
  | b :: c :: rest =>
    if b < 0x80 ∧ ¬ (b = 0 ∧ c < 0x80) then some (Bytes.toNat (b :: c :: rest)) else none

/-- A non-negative number and what follows it. -/
def readNat (bs : Bytes) : Option (Nat × Bytes) :=
  (read integerTag bs).bind fun (content, rest) => (natOfContent? content).map (·, rest)

end LedgerClient.Der
