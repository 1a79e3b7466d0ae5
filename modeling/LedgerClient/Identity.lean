/-
Who signs: crypto suites, identities and transaction ids.
-/
import LedgerClient.Key.Private
import LedgerClient.Protocol.Membership

namespace LedgerClient

inductive IdentityError where
  | invalidPrivateKey
  | invalidSignature
  | unsupportedSuite (family algorithm hash : String)
  deriving DecidableEq, Repr

def IdentityError.message : IdentityError → String
  | invalidPrivateKey => "invalid private key"
  | invalidSignature => "signature verification failed"
  | unsupportedSuite family algorithm hash =>
    s!"unsupported crypto suite: family={family} algorithm={algorithm} hash={hash}"

/-- The ways to hash and sign. There is one. -/
inductive CryptoSuite where
  | ecdsaP256Sha256
  deriving DecidableEq, Repr

namespace CryptoSuite

def lowerCase (s : String) : String := s.map Char.toLower

/-- The suite of three names, in which the case of ASCII letters does not matter. -/
def find? (family algorithm hash : String) : Except IdentityError CryptoSuite :=
  if lowerCase family = "ecdsa" ∧ lowerCase algorithm = "p256-sha256" ∧ lowerCase hash = "sha2-256"
  then .ok .ecdsaP256Sha256
  else .error (.unsupportedSuite family algorithm hash)

def hash : CryptoSuite → Bytes → Bytes
  | ecdsaP256Sha256 => sha256

end CryptoSuite

/-- A member of an organization who can sign. -/
structure Identity where
  certificate : Bytes
  mspId : String
  key : PrivateKey

/-- The identity as it stands in signature headers. -/
def Identity.creator (i : Identity) : Bytes :=
  Wire.encode ({ mspId := i.mspId, idBytes := i.certificate } : Protocol.SerializedIdentity)

/-- What a transaction's id is made of. -/
structure TransactionId where
  nonce : Bytes
  creator : Bytes
  deriving DecidableEq, Repr

/-- The id: the digest of the nonce and the creator, as hexadecimal text. -/
def TransactionId.id (t : TransactionId) : String := (sha256 (t.nonce ++ t.creator)).toHex

end LedgerClient
