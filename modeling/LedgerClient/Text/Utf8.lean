/-
UTF-8, read strictly or leniently.

Both readers take the input apart piece by piece. A piece is one encoded
character, or a longest run of bytes that begins some character's encoding but
is none in full. The strict reader refuses such a run; the lenient one writes
U+FFFD for it.
-/
import LedgerClient.Bytes

namespace LedgerClient.Utf8

/-- The bytes of a text. -/
def encode (s : String) : Bytes := s.toList.flatMap String.utf8EncodeChar

/-- The replacement character. -/
def replacement : Char := '\uFFFD'

/-- A character whose encoding has begun: how many bytes are still to come, which bytes may come
next, and the code point's bits so far. -/
structure Pending where
  more : Nat
  low : Nat
  high : Nat
  bits : Nat
  deriving DecidableEq, Repr

/-- A byte that begins a piece: the pieces it ends at once and the character it opens. The bounds
on the second byte shut out overlong spellings, surrogates and everything above U+10FFFF. -/
def first (b : UInt8) : List (Option Char) × Option Pending :=
  let n := b.toNat
  if n < 0x80 then ([some (Char.ofNat n)], none)
  else if n < 0xC2 then ([none], none)
  else if n < 0xE0 then ([], some ⟨1, 0x80, 0xBF, n - 0xC0⟩)
  else if n = 0xE0 then ([], some ⟨2, 0xA0, 0xBF, n - 0xE0⟩)
  else if n = 0xED then ([], some ⟨2, 0x80, 0x9F, n - 0xE0⟩)
  else if n < 0xF0 then ([], some ⟨2, 0x80, 0xBF, n - 0xE0⟩)
  else if n = 0xF0 then ([], some ⟨3, 0x90, 0xBF, n - 0xF0⟩)
  else if n < 0xF4 then ([], some ⟨3, 0x80, 0xBF, n - 0xF0⟩)
  else if n = 0xF4 then ([], some ⟨3, 0x80, 0x8F, n - 0xF0⟩)
  else ([none], none)

/-- One byte after what is pending: the pieces it ends and what is pending then. A byte that
cannot continue the pending character ends a malformed run and begins a piece itself. -/
def step (pending : Option Pending) (b : UInt8) : List (Option Char) × Option Pending :=
  match pending with
  | none => first b
  | some p =>
    if p.low ≤ b.toNat ∧ b.toNat ≤ p.high then
      let bits := p.bits * 64 + (b.toNat - 0x80)
      if p.more = 1 then ([some (Char.ofNat bits)], none)
      else ([], some ⟨p.more - 1, 0x80, 0xBF, bits⟩)
    else (none :: (first b).1, (first b).2)

def piecesFrom : Option Pending → Bytes → List (Option Char)
  | none, [] => []
  | some _, [] => [none]
  | p, b :: bs => (step p b).1 ++ piecesFrom (step p b).2 bs

/-- The pieces of a byte string: a character each, or nothing for a malformed run. -/
def pieces (bs : Bytes) : List (Option Char) := piecesFrom none bs

/-- The text that `bs` encodes, if it encodes one. -/
def decode? (bs : Bytes) : Option String := ((pieces bs).mapM id).map String.ofList

/-- The text of `bs` with U+FFFD for each malformed run. -/
def decodeLossy (bs : Bytes) : String :=
  String.ofList ((pieces bs).map (·.getD replacement))

end LedgerClient.Utf8
