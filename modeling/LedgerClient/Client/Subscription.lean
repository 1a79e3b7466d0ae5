/-
Subscriptions to the blocks of a channel.
-/
import LedgerClient.Client.Basic
import LedgerClient.Listener

namespace LedgerClient.Client

open Protocol

variable (c : Client)

/-- A listener that streams the blocks of a channel from the given number on, or else from the
newest block on. -/
def subscribe (channelId : String) (start : Option UInt64) (mode : DecodeMode) :
    Operation Listener := do
  let channelId ← Operation.ofExcept (c.channelOrDefault channelId)
  let source ← Operation.ofExcept c.eventPeer
  let listener : Listener := { signer := c.signer, source, channelId, mode }
  let stamp ← Operation.stamp
  let listener ← Operation.ofExcept <| match start with
    | some number => listener.seekRange stamp number 0xFFFFFFFFFFFFFFFF
    | none => listener.seekNewest stamp
  let (result, listener) ← ExceptT.lift listener.listen
  Operation.ofExcept result
  return listener

end LedgerClient.Client
