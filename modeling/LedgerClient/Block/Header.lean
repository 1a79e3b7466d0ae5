/-
The hash of a block: the SHA-256 digest of its header in distinguished encoding.

The header is written as a sequence of its number and its two hashes. There is
one such spelling of a header and none that two headers share, so every peer
computes the same hash and no two headers are hashed alike.
-/
import LedgerClient.Der
import LedgerClient.Hash.Sha256
import LedgerClient.Protocol.Block

namespace LedgerClient.Block

open Protocol

def headerBytes (h : BlockHeader) : Bytes :=
  Der.sequence
    (Der.integer h.number.toNat ++ Der.octetString h.previousHash ++ Der.octetString h.dataHash)

/-- Reads back what `headerBytes` writes. -/
def readHeader? (bs : Bytes) : Option BlockHeader := do
  let body ← Der.readOnly Der.sequenceTag bs
  let (number, rest) ← Der.readNat body
  let (previousHash, rest) ← Der.read Der.octetStringTag rest
  let dataHash ← Der.readOnly Der.octetStringTag rest
  if number < UInt64.size then some ⟨number.toUInt64, previousHash, dataHash⟩ else none

def headerHash (h : BlockHeader) : Bytes := sha256 (headerBytes h)

end LedgerClient.Block
