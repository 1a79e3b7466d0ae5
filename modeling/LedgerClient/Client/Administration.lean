/-
Operations on the nodes themselves: installing code, joining channels, and
reading the blocks that a channel is configured by.
-/
import LedgerClient.Client.Basic
import LedgerClient.Ledger

namespace LedgerClient.Client

open Protocol

variable (c : Client)

/-- Installs code on peers, and gives the answer of each. -/
def installChaincode (r : ChaincodeRequest) (package : Bytes) (names : List String) :
    Operation (List (String × ProposalResponse)) := do
  let request := c.signer.proposeInstall (← Operation.stamp) r package
  let targets ← Operation.ofExcept (c.peers names)
  Operation.ofExcept (PeerAnswer.requireAll (← c.ask targets request))

/-- Installs a package on a peer. -/
def installPackage (package : Bytes) (name : String) : Operation InstallChaincodeResult := do
  let request := c.signer.proposeLifecycleInstall (← Operation.stamp) package
  let (peer, answer) ← c.evaluate request name
  let payload ← Operation.ofExcept (Ledger.payload peer answer)
  Operation.ofExcept (ClientError.ofDecode
    (decodeAs InstallChaincodeResult "install result" payload))

/-- Who reads blocks for the client. -/
def blockReader : BlockReader := ⟨c.signer, c.settings.timeouts.deliverLimit⟩

/-- The first block of a channel. -/
def genesisBlock (channelId : String) : Operation Block := do
  let channelId ← Operation.ofExcept (c.channelOrDefault channelId)
  c.blockReader.genesisBlock (← c.selectOrderer) channelId

/-- The block with the configuration of a channel that is in force. -/
def lastConfigBlock (channelId : String) : Operation Block := do
  let channelId ← Operation.ofExcept (c.channelOrDefault channelId)
  c.blockReader.lastConfigBlock (← c.selectOrderer) channelId

/-- Has a peer join a channel. -/
def joinChannel (channelId : String) (name : String) : Operation Unit := do
  let channelId ← Operation.ofExcept (c.channelOrDefault channelId)
  let genesis ← c.genesisBlock channelId
  let request := c.signer.proposeJoin (← Operation.stamp) genesis
  let _ ← c.evaluate request name

end LedgerClient.Client
