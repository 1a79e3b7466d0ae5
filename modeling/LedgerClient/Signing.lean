/-
Signing on behalf of an identity.

What makes one envelope differ from the next, its nonce and its time, is given
from outside as a stamp, so that everything here is a function of its
arguments.
-/
import LedgerClient.Identity
import LedgerClient.Protocol.Codes
import LedgerClient.Protocol.Envelope

namespace LedgerClient

open Protocol

/-- A nonce and a time. -/
structure Stamp where
  nonce : Bytes
  time : Timestamp
  deriving DecidableEq, Repr

/-- The number of bytes in a fresh nonce. -/
def nonceSize : Nat := 24

/-- An identity and the suite it signs with. -/
structure Signer where
  identity : Identity
  suite : CryptoSuite := .ecdsaP256Sha256

namespace Signer

variable (s : Signer)

def mspId : String := s.identity.mspId

def creator : Bytes := s.identity.creator

def sign (message : Bytes) : Bytes := s.identity.key.sign message

def transactionId (stamp : Stamp) : TransactionId := ⟨stamp.nonce, s.creator⟩

def signatureHeader (stamp : Stamp) : SignatureHeader :=
  { creator := s.creator, nonce := stamp.nonce }

/-- The envelope of a payload. -/
def signPayload (p : Payload) : Envelope :=
  { payload := Wire.encode p, signature := s.sign (Wire.encode p) }

/-- The header of an envelope: its type, channel, transaction id and extension, at the time and
with the nonce of a stamp. -/
def header (stamp : Stamp) (type : HeaderType) (channelId txId : String) (extension : Bytes) :
    Header :=
  { channelHeader := Wire.encode
      ({ type := type.code, timestamp := some stamp.time, channelId, txId, extension } : ChannelHeader)
    signatureHeader := Wire.encode (s.signatureHeader stamp) }

end Signer

end LedgerClient
