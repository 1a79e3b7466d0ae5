/-
Signed requests for a range of blocks.
-/
import LedgerClient.Protocol.Deliver
import LedgerClient.Signing

namespace LedgerClient

open Protocol

/-- The envelope that asks for the blocks of a channel from one place to another, and waits for
those not yet there. -/
def Signer.seek (s : Signer) (stamp : Stamp) (channelId : String) (start stop : SeekPosition) :
    Envelope :=
  s.signPayload
    { header := some
        (s.header stamp .deliverSeekInfo channelId (s.transactionId stamp).id [])
      data := Wire.encode ({ start := some start, stop := some stop } : SeekInfo) }

end LedgerClient
