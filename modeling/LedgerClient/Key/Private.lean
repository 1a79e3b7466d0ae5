/-
Private keys and what is done with them.
-/
import LedgerClient.Ecdsa

namespace LedgerClient

/-- A private key: a number from one up to the order of the base point. -/
structure PrivateKey where
  d : Nat
  pos : 0 < d
  lt : d < P256.n

namespace PrivateKey

def ofNat? (d : Nat) : Option PrivateKey :=
  if h : 0 < d ∧ d < P256.n then some ⟨d, h.1, h.2⟩ else none

/-- A key from its number, most significant byte first, in 24 to 32 bytes. -/
def ofBytes? (bs : Bytes) : Option PrivateKey :=
  if 24 ≤ bs.length ∧ bs.length ≤ 32 then ofNat? (Bytes.toNat bs) else none

/-- The number of a key in 32 bytes. -/
def toBytes (k : PrivateKey) : Bytes := Bytes.ofNat 32 k.d

def publicPoint (k : PrivateKey) : P256.Point := P256.Point.mul k.d P256.basePoint

/-- The public key, with both coordinates. -/
def publicKey (k : PrivateKey) : Bytes := k.publicPoint.toBytes

/-- The signature over a message, in distinguished encoding. It would be empty if no nonce could
be found. -/
def sign (k : PrivateKey) (message : Bytes) : Bytes :=
  ((Ecdsa.sign k.d message).map (·.toDer)).getD []

end PrivateKey

/-- Whether `signature` is one over `message` by the owner of the public key. -/
def verifySignature (message signature publicKey : Bytes) : Bool :=
  match P256.Point.ofBytes? publicKey, Ecdsa.Signature.ofDer? signature with
  | some q, some sig => Ecdsa.verify q message sig
  | _, _ => false

end LedgerClient
