/-
Fetching single blocks, each in a session of its own.
-/
import LedgerClient.Block.Metadata
import LedgerClient.Dialogue
import LedgerClient.Seek

namespace LedgerClient

open Protocol

/-- Who fetches, and how long a block may take to come. -/
structure BlockReader where
  signer : Signer
  limit : Duration

namespace BlockReader

variable (r : BlockReader) (source : Node) (channelId : String)

/-- The first block that a node sends of those between two places. -/
def fetch (start stop : SeekPosition) : Operation Block := do
  let stamp ← Operation.stamp
  let session ← Operation.seek source (r.signer.seek stamp channelId start stop)
  Operation.ofExcept (session.firstBlock r.limit)

def block (number : UInt64) : Operation Block :=
  r.fetch source channelId (.specified number) (.specified number)

def genesisBlock : Operation Block := r.block source channelId 0

def newestBlock : Operation Block := r.fetch source channelId .newest .newest

/-- The block with the configuration in force, which the newest block names. -/
def lastConfigBlock : Operation Block := do
  let newest ← r.newestBlock source channelId
  let number ← Operation.ofExcept (ClientError.ofDecode (Block.lastConfigIndex newest))
  r.block source channelId number

end BlockReader

end LedgerClient
