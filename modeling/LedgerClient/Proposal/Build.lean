/-
Proposals, ready to be sent to endorsing peers.

Every proposal is signed over the bytes that are sent. Its transaction id is
bound to the signer and the nonce, and the chaincode it calls is named twice:
in the call and in the extension of its header.
-/
import LedgerClient.Proposal.Request
import LedgerClient.Protocol.Block
import LedgerClient.Protocol.Proposal
import LedgerClient.Signing

namespace LedgerClient

open Protocol

/-- A signed proposal with the parts that a transaction is later made of. -/
structure SignedRequest where
  txId : TransactionId
  channelId : String
  header : Header
  payload : ChaincodeProposalPayload
  signed : SignedProposal
  deriving DecidableEq, Repr

/-- The chaincodes that are part of every peer. -/
inductive SystemChaincode where
  | deployment | configuration | query | lifecycle
  deriving DecidableEq, Repr

def SystemChaincode.name : SystemChaincode → String
  | deployment => "lscc"
  | configuration => "cscc"
  | query => "qscc"
  | lifecycle => "_lifecycle"

namespace Signer

variable (s : Signer) (stamp : Stamp)

/-- The proposal of a call on a channel. -/
def propose (channelId : String) (id : ChaincodeId) (spec : ChaincodeSpec)
    (transientMap : List (String × Bytes)) : SignedRequest :=
  let txId := s.transactionId stamp
  let extension := Wire.encode ({ chaincodeId := some id } : ChaincodeHeaderExtension)
  let header := s.header stamp .endorserTransaction channelId txId.id extension
  let payload : ChaincodeProposalPayload :=
    { input := Wire.encode ({ spec := some spec } : ChaincodeInvocationSpec), transientMap }
  let bytes := Wire.encode
    ({ header := Wire.encode header, payload := Wire.encode payload } : Proposal)
  { txId, channelId, header, payload
    signed := { proposalBytes := bytes, signature := s.sign bytes } }

/-- A call of one of the peers' own chaincodes. -/
def proposeSystemCall (channelId : String) (chaincode : SystemChaincode) (args : List Bytes)
    (transientMap : List (String × Bytes)) : SignedRequest :=
  let id : ChaincodeId := { name := chaincode.name }
  s.propose stamp channelId id { type := golang, chaincodeId := some id, input := some { args } }
    transientMap

/-- A call of a chaincode. -/
def proposeInvocation (r : ChaincodeRequest) : SignedRequest :=
  s.propose stamp r.channelId r.invocationId (r.spec r.invocationId) r.transientMap

/-- The start or the upgrade of a chaincode on a channel. Without a policy any member of the
signer's organization may endorse. -/
def proposeInstantiation (r : ChaincodeRequest) (operation : String) (policy : Option String)
    (collections : Option Bytes) : Except ClientError SignedRequest := do
  if operation ≠ "deploy" ∧ operation ≠ "upgrade" then
    throw (.invalidOperation (.notDeployOrUpgrade operation))
  let policy ←
    match policy with
    | some text =>
      if text.isEmpty then pure (Policy.signedByMember s.mspId)
      else ClientError.ofPolicy (Policy.parse text)
    | none => pure (Policy.signedByMember s.mspId)
  let deployment : ChaincodeDeploymentSpec := { spec := some (r.spec r.deploymentId) }
  let args :=
    [Utf8.encode operation, Utf8.encode r.channelId, Wire.encode deployment, Wire.encode policy,
      Utf8.encode "escc", Utf8.encode "vscc"]
  let collections := (collections.filter fun c => !c.isEmpty).toList
  return s.proposeSystemCall stamp r.channelId .deployment (args ++ collections) r.transientMap

/-- The installation of a chaincode's code on a peer. -/
def proposeInstall (r : ChaincodeRequest) (package : Bytes) : SignedRequest :=
  let deployment : ChaincodeDeploymentSpec :=
    { spec := some (r.spec r.installId), codePackage := package }
  s.proposeSystemCall stamp "" .deployment [Utf8.encode "install", Wire.encode deployment] []

/-- A peer's joining of the channel that begins with a block. -/
def proposeJoin (genesis : Block) : SignedRequest :=
  s.proposeSystemCall stamp "" .configuration [Utf8.encode "JoinChain", Wire.encode genesis] []

/-- An operation on chaincode definitions. -/
def proposeLifecycle (channelId function : String) (args : Bytes) : SignedRequest :=
  s.proposeSystemCall stamp channelId .lifecycle [Utf8.encode function, args] []

def proposeLifecycleInstall (package : Bytes) : SignedRequest :=
  s.proposeLifecycle stamp "" "InstallChaincode"
    (Wire.encode ({ package } : InstallChaincodeArgs))

/-- The approval of a definition by the signer's organization, which has the code under an id. -/
def proposeApproval (channelId : String) (d : ChaincodeDefinition) (packageId : String) :
    Except ClientError SignedRequest := do
  let definition ← d.toArgs
  let args : ApproveChaincodeDefinitionArgs :=
    { definition, source := some (.localPackage packageId) }
  return s.proposeLifecycle stamp channelId "ApproveChaincodeDefinitionForMyOrg" (Wire.encode args)

def proposeCommit (channelId : String) (d : ChaincodeDefinition) :
    Except ClientError SignedRequest := do
  let args ← d.toArgs
  return s.proposeLifecycle stamp channelId "CommitChaincodeDefinition" (Wire.encode args)

def proposeReadinessCheck (channelId : String) (d : ChaincodeDefinition) :
    Except ClientError SignedRequest := do
  let definition ← d.toArgs
  return s.proposeLifecycle stamp channelId "CheckCommitReadiness"
    (Wire.encode ({ definition } : CheckCommitReadinessArgs))

/-- A question about the ledger of a channel. -/
def proposeQuery (channelId function : String) (args : List String) : SignedRequest :=
  s.proposeSystemCall stamp channelId .query ((function :: args).map Utf8.encode) []

end Signer

end LedgerClient
