/-
Signatures over P-256 with SHA-256.

The nonce of a signature is derived from the key and the message, so signing
the same message twice gives the same signature. Of the two signatures with the
same first number the one with the smaller second number is made; both verify.
-/
import LedgerClient.Curve.P256
import LedgerClient.Der
import LedgerClient.Hash.Hmac

namespace LedgerClient.Ecdsa

open P256

structure Signature where
  r : Nat
  s : Nat
  deriving DecidableEq, Repr

/-- The number that is signed for a message. -/
def messageNumber (message : Bytes) : Nat := Bytes.toNat (sha256 message)

/-! ## Nonces -/

/-- The state of the nonce generator: a key and a value of thirty-two bytes each. -/
structure Generator where
  key : Bytes
  value : Bytes

namespace Generator

/-- Mixes `seed` into the state behind a separator. -/
def mix (g : Generator) (separator : UInt8) (seed : Bytes) : Generator :=
  let key := hmacSha256 g.key (g.value ++ [separator] ++ seed)
  { key, value := hmacSha256 key g.value }

def next (g : Generator) : Generator := { g with value := hmacSha256 g.key g.value }

/-- The generator for a private number and the number to be signed. -/
def initial (d z : Nat) : Generator :=
  let seed := Bytes.ofNat 32 d ++ Bytes.ofNat 32 (z % n)
  let g : Generator := { key := List.replicate 32 0, value := List.replicate 32 1 }
  (g.mix 0 seed).mix 1 seed

/-- The first value between 1 and the order of the base point, within `tries`. -/
def nonce? : (tries : Nat) → Generator → Option Nat
  | 0, _ => none
  | tries + 1, g =>
    let g := g.next
    let k := Bytes.toNat g.value
    if 0 < k ∧ k < n then some k else nonce? tries (g.mix 0 [])

end Generator

/-! ## Signing and verifying -/

/-- The signature with a given nonce, if neither of its numbers is zero. -/
def signWithNonce (d k z : Nat) : Option Signature :=
  match Point.mul k basePoint with
  | .infinity => none
  | .affine x _ =>
    let r := x % n
    let s := inverse n k * (z + r * d) % n
    if r = 0 ∨ s = 0 then none else some ⟨r, s⟩

/-- The signature with the smaller second number of the two with the same first one. -/
def Signature.low (sig : Signature) : Signature :=
  if n / 2 < sig.s then { sig with s := n - sig.s } else sig

/-- Signs with the private number `d`. A value that is no nonce comes up less than once in four
thousand million tries, so a hundred tries never run out. -/
def sign (d : Nat) (message : Bytes) : Option Signature := do
  let z := messageNumber message
  let k ← (Generator.initial d z).nonce? 100
  let sig ← signWithNonce d k z
  return sig.low

def verify (q : Point) (message : Bytes) (sig : Signature) : Bool :=
  let z := messageNumber message
  let w := inverse n sig.s
  let u := z * w % n
  let v := sig.r * w % n
  match (Point.mul u basePoint).add (Point.mul v q) with
  | .infinity => false
  | .affine x _ =>
    0 < sig.r && sig.r < n && 0 < sig.s && sig.s < n && x % n == sig.r

namespace Signature

def toDer (sig : Signature) : Bytes := Der.sequence (Der.integer sig.r ++ Der.integer sig.s)

/-- Reads a signature in distinguished encoding, with both numbers below the order of the base
point and not zero. -/
def ofDer? (bs : Bytes) : Option Signature := do
  let body ← Der.readOnly Der.sequenceTag bs
  let (r, rest) ← Der.readNat body
  let (s, rest) ← Der.readNat rest
  if rest = [] ∧ 0 < r ∧ r < n ∧ 0 < s ∧ s < n then some ⟨r, s⟩ else none

end Signature

end LedgerClient.Ecdsa
