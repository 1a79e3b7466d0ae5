/-
Keyed hashing with SHA-256.
-/
import LedgerClient.Hash.Sha256

namespace LedgerClient

/-- The keyed digest of a message. A key longer than a block is hashed first. -/
def hmacSha256 (key message : Bytes) : Bytes :=
  let key := if key.length ≤ 64 then key else sha256 key
  let block := key ++ List.replicate (64 - key.length) 0
  sha256 (block.map (· ^^^ 0x5c) ++ sha256 (block.map (· ^^^ 0x36) ++ message))

end LedgerClient
