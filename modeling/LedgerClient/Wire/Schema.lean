/-
The schema: every message type of the network's protocol, its name and its
fields.

A field has a number, a content and an occurrence. The occurrence says what a
second record of the same number does: it replaces or merges (`single`), is
kept beside the first (`repeated`), replaces the entry of its key (`keyed`), or
also drops the other members of its group (`choice`).
-/
import LedgerClient.Bytes

namespace LedgerClient.Wire

inductive ScalarKind where
  | int32 | int64 | uint32 | uint64 | bool | text | bytes
  deriving DecidableEq, Repr

inductive MessageType where
  -- envelopes and blocks
  | envelope | payload | header | channelHeader | timestamp | signatureHeader
  | block | blockHeader | blockData | blockMetadata | metadata | metadataSignature
  | lastConfig | ordererBlockMetadata | blockchainInfo
  -- channel configuration
  | configEnvelope | config | configUpdateEnvelope | configSignature
  | configGroup | configValue | configPolicy | policy
  | signaturePolicyEnvelope | signaturePolicy | nOutOf | implicitMetaPolicy
  | hashingAlgorithm | blockDataHashingStructure | ordererAddresses | consortium
  | capabilities | capability
  -- membership
  | serializedIdentity | mspPrincipal | mspRole | mspConfig | mspDefinition
  | mspCryptoConfig | ouIdentifier | nodeOus
  -- proposals and their answers
  | signedProposal | proposal | chaincodeHeaderExtension | chaincodeProposalPayload
  | chaincodeAction | proposalResponse | response | proposalResponsePayload | endorsement
  | chaincodeId | chaincodeInput | chaincodeSpec | chaincodeDeploymentSpec
  | chaincodeInvocationSpec | chaincodeEvent | applicationPolicy
  -- transactions and filtered blocks
  | transaction | transactionAction | chaincodeActionPayload | chaincodeEndorsedAction
  | filteredBlock | filteredTransaction | filteredTransactionActions
  | filteredChaincodeAction | peerDeliverResponse | anchorPeers | anchorPeer | acls | apiResource
  -- ordering service
  | broadcastResponse | seekNewest | seekOldest | seekSpecified | seekNextCommit
  | seekPosition | seekInfo | ordererDeliverResponse | kafkaMetadata | consensusType
  | batchSize | batchTimeout | channelRestrictions
  -- read-write sets
  | txReadWriteSet | nsReadWriteSet | collectionHashedReadWriteSet | kvRwSet | kvRead
  | kvWrite | kvMetadataWrite | kvMetadataEntry | version | rangeQueryInfo | queryReads
  | queryReadsMerkleSummary
  -- chaincode lifecycle
  | installChaincodeArgs | installChaincodeResult | chaincodeSource | chaincodeUnavailable
  | chaincodeLocal | approveChaincodeDefinitionArgs | commitChaincodeDefinitionArgs
  | checkCommitReadinessArgs | checkCommitReadinessResult
  deriving DecidableEq, Repr

/-- What has fields: a message type, or an entry of a map from text with a value of some content. -/
inductive Shape where
  | type (t : MessageType)
  | scalarEntry (k : ScalarKind)
  | messageEntry (t : MessageType)
  deriving DecidableEq, Repr

inductive Content where
  | scalar (k : ScalarKind)
  | message (s : Shape)
  deriving DecidableEq, Repr

/-- How records of one field number combine; a `choice` knows the numbers of its group. -/
inductive Occurrence where
  | single
  | repeated
  | keyed
  | choice (group : List Nat)
  deriving DecidableEq, Repr

structure FieldSpec where
  tag : Nat
  occurrence : Occurrence
  content : Content
  deriving DecidableEq, Repr

namespace FieldSpec

/-- A scalar that is left out when it is zero, false or empty. -/
def scalar (tag : Nat) (k : ScalarKind) : FieldSpec := ⟨tag, .single, .scalar k⟩

/-- A message that may be absent. -/
def optional (tag : Nat) (t : MessageType) : FieldSpec := ⟨tag, .single, .message (.type t)⟩

def many (tag : Nat) (t : MessageType) : FieldSpec := ⟨tag, .repeated, .message (.type t)⟩

def manyScalars (tag : Nat) (k : ScalarKind) : FieldSpec := ⟨tag, .repeated, .scalar k⟩

/-- A map from text to scalars. -/
def scalarMap (tag : Nat) (k : ScalarKind) : FieldSpec := ⟨tag, .keyed, .message (.scalarEntry k)⟩

/-- A map from text to messages. -/
def messageMap (tag : Nat) (t : MessageType) : FieldSpec :=
  ⟨tag, .keyed, .message (.messageEntry t)⟩

/-- Fields of which a message holds at most one. -/
def oneOf (members : List (Nat × Content)) : List FieldSpec :=
  members.map fun (tag, content) => ⟨tag, .choice (members.map (·.1)), content⟩

end FieldSpec

namespace MessageType

open FieldSpec (scalar optional many manyScalars scalarMap messageMap oneOf)

/-- The fields that the three operations on a chaincode definition share. -/
def definitionFields : List FieldSpec :=
  [scalar 1 .int64, scalar 2 .text, scalar 3 .text, scalar 4 .text, scalar 5 .text,
    scalar 6 .bytes, scalar 8 .bool]

def fields : MessageType → List FieldSpec
  | envelope => [scalar 1 .bytes, scalar 2 .bytes]
  | payload => [optional 1 header, scalar 2 .bytes]
  | header => [scalar 1 .bytes, scalar 2 .bytes]
  | channelHeader =>
    [scalar 1 .int32, scalar 2 .int32, optional 3 timestamp, scalar 4 .text, scalar 5 .text,
      scalar 6 .uint64, scalar 7 .bytes, scalar 8 .bytes]
  | timestamp => [scalar 1 .int64, scalar 2 .int32]
  | signatureHeader => [scalar 1 .bytes, scalar 2 .bytes]
  | block => [optional 1 blockHeader, optional 2 blockData, optional 3 blockMetadata]
  | blockHeader => [scalar 1 .uint64, scalar 2 .bytes, scalar 3 .bytes]
  | blockData => [manyScalars 1 .bytes]
  | blockMetadata => [manyScalars 1 .bytes]
  | metadata => [scalar 1 .bytes, many 2 metadataSignature]
  | metadataSignature => [scalar 1 .bytes, scalar 2 .bytes, scalar 3 .bytes]
  | lastConfig => [scalar 1 .uint64]
  | ordererBlockMetadata => [optional 1 lastConfig, scalar 2 .bytes]
  | blockchainInfo => [scalar 1 .uint64, scalar 2 .bytes, scalar 3 .bytes]
  | configEnvelope => [optional 1 config, optional 2 envelope]
  | config => [scalar 1 .uint64, optional 2 configGroup]
  | configUpdateEnvelope => [scalar 1 .bytes, many 2 configSignature]
  | configSignature => [scalar 1 .bytes, scalar 2 .bytes]
  | configGroup =>
    [scalar 1 .uint64, messageMap 2 configGroup, messageMap 3 configValue,
      messageMap 4 configPolicy, scalar 5 .text]
  | configValue => [scalar 1 .uint64, scalar 2 .bytes, scalar 3 .text]
  | configPolicy => [scalar 1 .uint64, optional 2 policy, scalar 3 .text]
  | policy => [scalar 1 .int32, scalar 2 .bytes]
  | signaturePolicyEnvelope => [scalar 1 .int32, optional 2 signaturePolicy, many 3 mspPrincipal]
  | signaturePolicy => oneOf [(1, .scalar .int32), (2, .message (.type nOutOf))]
  | nOutOf => [scalar 1 .int32, many 2 signaturePolicy]
  | implicitMetaPolicy => [scalar 1 .text, scalar 2 .int32]
  | hashingAlgorithm => [scalar 1 .text]
  | blockDataHashingStructure => [scalar 1 .uint32]
  | ordererAddresses => [manyScalars 1 .text]
  | consortium => [scalar 1 .text]
  | capabilities => [messageMap 1 capability]
  | capability => []
  | serializedIdentity => [scalar 1 .text, scalar 2 .bytes]
  | mspPrincipal => [scalar 1 .int32, scalar 2 .bytes]
  | mspRole => [scalar 1 .text, scalar 2 .int32]
  | mspConfig => [scalar 1 .int32, scalar 2 .bytes]
  | mspDefinition =>
    [scalar 1 .text, manyScalars 2 .bytes, manyScalars 3 .bytes, manyScalars 4 .bytes,
      manyScalars 5 .bytes, many 7 ouIdentifier, optional 8 mspCryptoConfig,
      manyScalars 9 .bytes, manyScalars 10 .bytes, optional 11 nodeOus]
  | mspCryptoConfig => [scalar 1 .text, scalar 2 .text]
  | ouIdentifier => [scalar 1 .bytes, scalar 2 .text]
  | nodeOus =>
    [scalar 1 .bool, optional 2 ouIdentifier, optional 3 ouIdentifier, optional 4 ouIdentifier,
      optional 5 ouIdentifier]
  | signedProposal => [scalar 1 .bytes, scalar 2 .bytes]
  | proposal => [scalar 1 .bytes, scalar 2 .bytes, scalar 3 .bytes]
  | chaincodeHeaderExtension => [optional 2 chaincodeId]
  | chaincodeProposalPayload => [scalar 1 .bytes, scalarMap 2 .bytes]
  | chaincodeAction => [scalar 1 .bytes, scalar 2 .bytes, optional 3 response, optional 4 chaincodeId]
  | proposalResponse =>
    [scalar 1 .int32, optional 2 timestamp, optional 4 response, scalar 5 .bytes,
      optional 6 endorsement]
  | response => [scalar 1 .int32, scalar 2 .text, scalar 3 .bytes]
  | proposalResponsePayload => [scalar 1 .bytes, scalar 2 .bytes]
  | endorsement => [scalar 1 .bytes, scalar 2 .bytes]
  | chaincodeId => [scalar 1 .text, scalar 2 .text, scalar 3 .text]
  | chaincodeInput => [manyScalars 1 .bytes, scalarMap 2 .bytes, scalar 3 .bool]
  | chaincodeSpec =>
    [scalar 1 .int32, optional 2 chaincodeId, optional 3 chaincodeInput, scalar 4 .int32]
  | chaincodeDeploymentSpec => [optional 1 chaincodeSpec, scalar 3 .bytes]
  | chaincodeInvocationSpec => [optional 1 chaincodeSpec]
  | chaincodeEvent => [scalar 1 .text, scalar 2 .text, scalar 3 .text, scalar 4 .bytes]
  | applicationPolicy =>
    oneOf [(1, .message (.type signaturePolicyEnvelope)), (2, .scalar .text)]
  | transaction => [many 1 transactionAction]
  | transactionAction => [scalar 1 .bytes, scalar 2 .bytes]
  | chaincodeActionPayload => [scalar 1 .bytes, optional 2 chaincodeEndorsedAction]
  | chaincodeEndorsedAction => [scalar 1 .bytes, many 2 endorsement]
  | filteredBlock => [scalar 1 .text, scalar 2 .uint64, many 4 filteredTransaction]
  | filteredTransaction =>
    [scalar 1 .text, scalar 2 .int32, scalar 3 .int32]
      ++ oneOf [(4, .message (.type filteredTransactionActions))]
  | filteredTransactionActions => [many 1 filteredChaincodeAction]
  | filteredChaincodeAction => [optional 1 chaincodeEvent]
  | peerDeliverResponse =>
    oneOf [(1, .scalar .int32), (2, .message (.type block)), (3, .message (.type filteredBlock))]
  | anchorPeers => [many 1 anchorPeer]
  | anchorPeer => [scalar 1 .text, scalar 2 .int32]
  | acls => [messageMap 1 apiResource]
  | apiResource => [scalar 1 .text]
  | broadcastResponse => [scalar 1 .int32, scalar 2 .text]
  | seekNewest => []
  | seekOldest => []
  | seekSpecified => [scalar 1 .uint64]
  | seekNextCommit => []
  | seekPosition =>
    oneOf [(1, .message (.type seekNewest)), (2, .message (.type seekOldest)),
      (3, .message (.type seekSpecified)), (4, .message (.type seekNextCommit))]
  | seekInfo => [optional 1 seekPosition, optional 2 seekPosition, scalar 3 .int32]
  | ordererDeliverResponse => oneOf [(1, .scalar .int32), (2, .message (.type block))]
  | kafkaMetadata => [scalar 1 .int64, scalar 2 .int64, scalar 3 .int64]
  | consensusType => [scalar 1 .text, scalar 2 .bytes, scalar 3 .int32]
  | batchSize => [scalar 1 .uint32, scalar 2 .uint32, scalar 3 .uint32]
  | batchTimeout => [scalar 1 .text]
  | channelRestrictions => [scalar 1 .uint64]
  | txReadWriteSet => [scalar 1 .int32, many 2 nsReadWriteSet]
  | nsReadWriteSet => [scalar 1 .text, scalar 2 .bytes, many 3 collectionHashedReadWriteSet]
  | collectionHashedReadWriteSet => [scalar 1 .text, scalar 2 .bytes, scalar 3 .bytes]
  | kvRwSet => [many 1 kvRead, many 2 rangeQueryInfo, many 3 kvWrite, many 4 kvMetadataWrite]
  | kvRead => [scalar 1 .text, optional 2 version]
  | kvWrite => [scalar 1 .text, scalar 2 .bool, scalar 3 .bytes]
  | kvMetadataWrite => [scalar 1 .text, many 2 kvMetadataEntry]
  | kvMetadataEntry => [scalar 1 .text, scalar 2 .bytes]
  | version => [scalar 1 .uint64, scalar 2 .uint64]
  | rangeQueryInfo =>
    [scalar 1 .text, scalar 2 .text, scalar 3 .bool]
      ++ oneOf [(4, .message (.type queryReads)), (5, .message (.type queryReadsMerkleSummary))]
  | queryReads => [many 1 kvRead]
  | queryReadsMerkleSummary => [scalar 1 .uint32, scalar 2 .uint32, manyScalars 3 .bytes]
  | installChaincodeArgs => [scalar 1 .bytes]
  | installChaincodeResult => [scalar 1 .text, scalar 2 .text]
  | chaincodeSource =>
    oneOf [(1, .message (.type chaincodeUnavailable)), (2, .message (.type chaincodeLocal))]
  | chaincodeUnavailable => []
  | chaincodeLocal => [scalar 1 .text]
  | approveChaincodeDefinitionArgs => definitionFields ++ [optional 9 chaincodeSource]
  | commitChaincodeDefinitionArgs => definitionFields
  | checkCommitReadinessArgs => definitionFields
  | checkCommitReadinessResult => [scalarMap 1 .bool]

/-- The name of a message type in the protocol's own tables. -/
def name : MessageType → String
  | envelope => "common.Envelope"
  | payload => "common.Payload"
  | header => "common.Header"
  | channelHeader => "common.ChannelHeader"
  | timestamp => "google.protobuf.Timestamp"
  | signatureHeader => "common.SignatureHeader"
  | block => "common.Block"
  | blockHeader => "common.BlockHeader"
  | blockData => "common.BlockData"
  | blockMetadata => "common.BlockMetadata"
  | metadata => "common.Metadata"
  | metadataSignature => "common.MetadataSignature"
  | lastConfig => "common.LastConfig"
  | ordererBlockMetadata => "common.OrdererBlockMetadata"
  | blockchainInfo => "common.BlockchainInfo"
  | configEnvelope => "common.ConfigEnvelope"
  | config => "common.Config"
  | configUpdateEnvelope => "common.ConfigUpdateEnvelope"
  | configSignature => "common.ConfigSignature"
  | configGroup => "common.ConfigGroup"
  | configValue => "common.ConfigValue"
  | configPolicy => "common.ConfigPolicy"
  | policy => "common.Policy"
  | signaturePolicyEnvelope => "common.SignaturePolicyEnvelope"
  | signaturePolicy => "common.SignaturePolicy"
  | nOutOf => "common.SignaturePolicy.NOutOf"
  | implicitMetaPolicy => "common.ImplicitMetaPolicy"
  | hashingAlgorithm => "common.HashingAlgorithm"
  | blockDataHashingStructure => "common.BlockDataHashingStructure"
  | ordererAddresses => "common.OrdererAddresses"
  | consortium => "common.Consortium"
  | capabilities => "common.Capabilities"
  | capability => "common.Capability"
  | serializedIdentity => "msp.SerializedIdentity"
  | mspPrincipal => "msp.MspPrincipal"
  | mspRole => "msp.MspRole"
  | mspConfig => "msp.MspConfig"
  | mspDefinition => "msp.FabricMspConfig"
  | mspCryptoConfig => "msp.FabricCryptoConfig"
  | ouIdentifier => "msp.FabricOuIdentifier"
  | nodeOus => "msp.FabricNodeOus"
  | signedProposal => "peer.SignedProposal"
  | proposal => "peer.Proposal"
  | chaincodeHeaderExtension => "peer.ChaincodeHeaderExtension"
  | chaincodeProposalPayload => "peer.ChaincodeProposalPayload"
  | chaincodeAction => "peer.ChaincodeAction"
  | proposalResponse => "peer.ProposalResponse"
  | response => "peer.Response"
  | proposalResponsePayload => "peer.ProposalResponsePayload"
  | endorsement => "peer.Endorsement"
  | chaincodeId => "peer.ChaincodeId"
  | chaincodeInput => "peer.ChaincodeInput"
  | chaincodeSpec => "peer.ChaincodeSpec"
  | chaincodeDeploymentSpec => "peer.ChaincodeDeploymentSpec"
  | chaincodeInvocationSpec => "peer.ChaincodeInvocationSpec"
  | chaincodeEvent => "peer.ChaincodeEvent"
  | applicationPolicy => "peer.ApplicationPolicy"
  | transaction => "peer.Transaction"
  | transactionAction => "peer.TransactionAction"
  | chaincodeActionPayload => "peer.ChaincodeActionPayload"
  | chaincodeEndorsedAction => "peer.ChaincodeEndorsedAction"
  | filteredBlock => "peer.FilteredBlock"
  | filteredTransaction => "peer.FilteredTransaction"
  | filteredTransactionActions => "peer.FilteredTransactionActions"
  | filteredChaincodeAction => "peer.FilteredChaincodeAction"
  | peerDeliverResponse => "peer.DeliverResponse"
  | anchorPeers => "peer.AnchorPeers"
  | anchorPeer => "peer.AnchorPeer"
  | acls => "peer.Acls"
  | apiResource => "peer.ApiResource"
  | broadcastResponse => "orderer.BroadcastResponse"
  | seekNewest => "orderer.SeekNewest"
  | seekOldest => "orderer.SeekOldest"
  | seekSpecified => "orderer.SeekSpecified"
  | seekNextCommit => "orderer.SeekNextCommit"
  | seekPosition => "orderer.SeekPosition"
  | seekInfo => "orderer.SeekInfo"
  | ordererDeliverResponse => "orderer.DeliverResponse"
  | kafkaMetadata => "orderer.KafkaMetadata"
  | consensusType => "orderer.ConsensusType"
  | batchSize => "orderer.BatchSize"
  | batchTimeout => "orderer.BatchTimeout"
  | channelRestrictions => "orderer.ChannelRestrictions"
  | txReadWriteSet => "rwset.TxReadWriteSet"
  | nsReadWriteSet => "rwset.NsReadWriteSet"
  | collectionHashedReadWriteSet => "rwset.CollectionHashedReadWriteSet"
  | kvRwSet => "rwset.KvRwSet"
  | kvRead => "rwset.KvRead"
  | kvWrite => "rwset.KvWrite"
  | kvMetadataWrite => "rwset.KvMetadataWrite"
  | kvMetadataEntry => "rwset.KvMetadataEntry"
  | version => "rwset.Version"
  | rangeQueryInfo => "rwset.RangeQueryInfo"
  | queryReads => "rwset.QueryReads"
  | queryReadsMerkleSummary => "rwset.QueryReadsMerkleSummary"
  | installChaincodeArgs => "lifecycle.InstallChaincodeArgs"
  | installChaincodeResult => "lifecycle.InstallChaincodeResult"
  | chaincodeSource => "lifecycle.ChaincodeSource"
  | chaincodeUnavailable => "lifecycle.ChaincodeSource.Unavailable"
  | chaincodeLocal => "lifecycle.ChaincodeSource.Local"
  | approveChaincodeDefinitionArgs => "lifecycle.ApproveChaincodeDefinitionForMyOrgArgs"
  | commitChaincodeDefinitionArgs => "lifecycle.CommitChaincodeDefinitionArgs"
  | checkCommitReadinessArgs => "lifecycle.CheckCommitReadinessArgs"
  | checkCommitReadinessResult => "lifecycle.CheckCommitReadinessResult"

/-- Every message type, in the order of the declaration. -/
def all : List MessageType :=
  [envelope, payload, header, channelHeader, timestamp, signatureHeader, block, blockHeader,
    blockData, blockMetadata, metadata, metadataSignature, lastConfig, ordererBlockMetadata,
    blockchainInfo, configEnvelope, config, configUpdateEnvelope, configSignature, configGroup,
    configValue, configPolicy, policy, signaturePolicyEnvelope, signaturePolicy, nOutOf,
    implicitMetaPolicy, hashingAlgorithm, blockDataHashingStructure, ordererAddresses, consortium,
    capabilities, capability, serializedIdentity, mspPrincipal, mspRole, mspConfig, mspDefinition,
    mspCryptoConfig, ouIdentifier, nodeOus, signedProposal, proposal, chaincodeHeaderExtension,
    chaincodeProposalPayload, chaincodeAction, proposalResponse, response,
    proposalResponsePayload, endorsement, chaincodeId, chaincodeInput, chaincodeSpec,
    chaincodeDeploymentSpec, chaincodeInvocationSpec, chaincodeEvent, applicationPolicy,
    transaction, transactionAction, chaincodeActionPayload, chaincodeEndorsedAction,
    filteredBlock, filteredTransaction, filteredTransactionActions, filteredChaincodeAction,
    peerDeliverResponse, anchorPeers, anchorPeer, acls, apiResource, broadcastResponse,
    seekNewest, seekOldest, seekSpecified, seekNextCommit, seekPosition, seekInfo,
    ordererDeliverResponse, kafkaMetadata, consensusType, batchSize, batchTimeout,
    channelRestrictions, txReadWriteSet, nsReadWriteSet, collectionHashedReadWriteSet, kvRwSet,
    kvRead, kvWrite, kvMetadataWrite, kvMetadataEntry, version, rangeQueryInfo, queryReads,
    queryReadsMerkleSummary, installChaincodeArgs, installChaincodeResult, chaincodeSource,
    chaincodeUnavailable, chaincodeLocal, approveChaincodeDefinitionArgs,
    commitChaincodeDefinitionArgs, checkCommitReadinessArgs, checkCommitReadinessResult]

def ofName? (s : String) : Option MessageType := all.find? (·.name == s)

end MessageType

/-- A map entry has its key under 1 and its value under 2. -/
def Shape.fields : Shape → List FieldSpec
  | type t => t.fields
  | scalarEntry k => [.scalar 1 .text, .scalar 2 k]
  | messageEntry t => [.scalar 1 .text, .optional 2 t]

def Shape.field? (s : Shape) (tag : Nat) : Option FieldSpec := s.fields.find? (·.tag == tag)

/-- Whether the fields under a number are the entries of a map. -/
def Shape.isKeyed (s : Shape) (tag : Nat) : Bool :=
  match s.field? tag with
  | some spec => spec.occurrence == .keyed
  | none => false

end LedgerClient.Wire
