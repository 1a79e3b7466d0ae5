/-
The entries of a block, taken apart step by step.

Both views of a block use these steps, so that they agree on what can be taken
apart.
-/
import LedgerClient.Block.Record
import LedgerClient.Decoding
import LedgerClient.Protocol.Membership
import LedgerClient.Protocol.Proposal

namespace LedgerClient.Block

open Protocol

/-- An entry down to its channel header. -/
structure Entry where
  envelope : Envelope
  payload : Payload
  header : Header
  channelHeader : ChannelHeader
  deriving DecidableEq, Repr

def Entry.ofBytes? (bytes : Bytes) : Except DecodeError Entry := do
  let envelope ← decodeAs Envelope "envelope" bytes
  let payload ← decodeAs Payload "payload" envelope.payload
  let header ← require "payload header" payload.header
  let channelHeader ← decodeAs ChannelHeader "channel header" header.channelHeader
  return { envelope, payload, header, channelHeader }

/-- The organization and the certificate of a creator; both empty when it is no identity. -/
def creator (bytes : Bytes) : String × String :=
  match Wire.decode? SerializedIdentity bytes with
  | some id => (id.mspId, Utf8.decodeLossy id.idBytes)
  | none => ("", "")

def Signer.ofHeader (h : SignatureHeader) : Signer :=
  { mspId := (creator h.creator).1, certificate := (creator h.creator).2, nonce := h.nonce }

def TransactionHeader.of (h : ChannelHeader) (chaincodeId : Option ChaincodeId) :
    TransactionHeader :=
  { type := h.type, version := h.version, timestamp := h.timestamp, channelId := h.channelId,
    txId := h.txId, epoch := h.epoch, chaincodeId }

/-- A chaincode transaction down to what its simulation produced. -/
structure EndorsedAction where
  action : TransactionAction
  actionPayload : ChaincodeActionPayload
  endorsed : ChaincodeEndorsedAction
  responsePayload : ProposalResponsePayload
  chaincodeAction : ChaincodeAction
  deriving DecidableEq, Repr

/-- Only the first action of a transaction is looked at. -/
def EndorsedAction.ofBytes? (data : Bytes) : Except DecodeError EndorsedAction := do
  let tx ← decodeAs Protocol.Transaction "transaction" data
  let action ← require "transaction action" tx.actions.head?
  let actionPayload ← decodeAs ChaincodeActionPayload "chaincode action payload" action.payload
  let endorsed ← require "endorsed action"
    (actionPayload.action.filter fun a => !a.proposalResponsePayload.isEmpty)
  let responsePayload ← decodeAs ProposalResponsePayload "proposal response payload"
    endorsed.proposalResponsePayload
  let extension ← require "proposal response extension"
    (if responsePayload.extension.isEmpty then none else some responsePayload.extension)
  let chaincodeAction ← decodeAs ChaincodeAction "chaincode action" extension
  return { action, actionPayload, endorsed, responsePayload, chaincodeAction }

/-- The access to one namespace, nothing when its set is malformed. -/
def NamespaceAccess.of? (s : NsReadWriteSet) : Option NamespaceAccess :=
  (Wire.decode? KvRwSet s.rwset).map fun kv =>
    { space := s.space, reads := kv.reads, writes := kv.writes,
      metadataWrites := kv.metadataWrites.map (·.key), rangeQueries := kv.rangeQueries.length }

/-- The accesses that a simulation's results list, without the malformed ones. -/
def accesses (results : Bytes) : Except DecodeError (List NamespaceAccess) := do
  let set ← decodeAs TxReadWriteSet "tx read write set" results
  return set.namespaces.filterMap NamespaceAccess.of?

end LedgerClient.Block
