/-
Operations that end in a transaction: each has a proposal endorsed by the
selected peers and the result ordered.
-/
import LedgerClient.Client.Basic
import LedgerClient.ConfigUpdate

namespace LedgerClient.Client

variable (c : Client)

/-- Calls a chaincode. -/
def invoke (r : ChaincodeRequest) : Operation Outcome := do
  let r ← Operation.ofExcept (c.resolve r)
  let request := c.signer.proposeInvocation (← Operation.stamp) r
  c.submit request (← c.selectPeers)

/-- Starts or upgrades a chaincode on a channel. -/
def instantiateChaincode (r : ChaincodeRequest) (operation : String) (policy : Option String)
    (collections : Option Bytes) : Operation Outcome := do
  let r ← Operation.ofExcept (c.resolve r)
  let stamp ← Operation.stamp
  let request ← Operation.ofExcept
    (c.signer.proposeInstantiation stamp r operation policy collections)
  c.submit request (← c.selectPeers)

/-- Approves a chaincode definition for the organization of the signer. -/
def approveForMyOrganization (channelId : String) (d : ChaincodeDefinition) (packageId : String) :
    Operation Outcome := do
  let channelId ← Operation.ofExcept (c.channelOrDefault channelId)
  let stamp ← Operation.stamp
  let request ← Operation.ofExcept (c.signer.proposeApproval stamp channelId d packageId)
  c.submit request (← c.selectPeers)

/-- Puts a chaincode definition into force. -/
def commitChaincodeDefinition (channelId : String) (d : ChaincodeDefinition) :
    Operation Outcome := do
  let channelId ← Operation.ofExcept (c.channelOrDefault channelId)
  let stamp ← Operation.stamp
  let request ← Operation.ofExcept (c.signer.proposeCommit stamp channelId d)
  c.submit request (← c.selectPeers)

/-- Signs the creation or an update of a channel and has it ordered. -/
def updateChannel (envelope : Bytes) (channelId : String) : Operation Unit := do
  let stamp ← Operation.stamp
  let signed ← Operation.ofExcept
    (ClientError.ofDecode (c.signer.signEncodedConfigUpdate stamp channelId envelope))
  Operation.broadcast (← c.selectOrderer) signed

end LedgerClient.Client
