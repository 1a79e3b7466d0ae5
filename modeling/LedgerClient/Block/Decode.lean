/-
The full view of a block.

An entry that cannot be taken apart, or that carries neither a chaincode call
nor a configuration, is left out; the others keep their index, their
validation code and their size.
-/
import LedgerClient.Block.Header
import LedgerClient.Block.Metadata
import LedgerClient.ChannelConfig.Json

namespace LedgerClient.Block

open Protocol

/-- A chaincode transaction from the data of its payload. -/
def endorserTransaction (data : Bytes) : Except DecodeError EndorserTransaction := do
  let endorsed ← EndorsedAction.ofBytes? data
  let actionHeader ← decodeAs SignatureHeader "action signature header" endorsed.action.header
  let proposalPayload ← decodeAs ChaincodeProposalPayload "chaincode proposal payload"
    endorsed.actionPayload.proposalPayload
  let invocation ← decodeAs ChaincodeInvocationSpec "chaincode invocation spec"
    proposalPayload.input
  let spec ← require "chaincode spec" invocation.spec
  let action := endorsed.chaincodeAction
  let event ←
    if action.events.isEmpty then pure none
    else some <$> decodeAs ChaincodeEvent "chaincode event" action.events
  let accesses ← accesses action.results
  return {
    actionSigner := .ofHeader actionHeader
    invocation :=
      { chaincodeType := spec.type, chaincodeId := spec.chaincodeId,
        args := match spec.input with
          | some input => input.args.map Utf8.decodeLossy
          | none => [],
        timeout := spec.timeout }
    endorsements := endorsed.endorsed.endorsements.map fun e =>
      { signer := .ofHeader { creator := e.endorser }, signature := e.signature }
    proposalHash := endorsed.responsePayload.proposalHash
    response := action.response
    event, accesses }

/-- A configuration transaction from the data of its payload; its action is signed by the signer
of the envelope. -/
def configTransaction (data : Bytes) (signer : Signer) : Except DecodeError ConfigTransaction := do
  let envelope ← decodeAs ConfigEnvelope "config envelope" data
  let config ← require "config" envelope.config
  let lastUpdate ← require "config last update" envelope.lastUpdate
  let payload ← decodeAs Payload "config update payload" lastUpdate.payload
  let header ← require "config update header" payload.header
  let channelHeader ← decodeAs ChannelHeader "config update channel header" header.channelHeader
  return {
    actionSigner := signer
    proposalHash := sha256 lastUpdate.payload
    lastUpdateHeader := .of channelHeader none
    config := ChannelConfig.toJson config }

/-- The body of an entry by its type, nothing for other types. -/
def body (e : Entry) (signer : Signer) : Except DecodeError (Option Body) :=
  match HeaderType.ofCode? e.channelHeader.type with
  | some .endorserTransaction => (some ∘ .endorser) <$> endorserTransaction e.payload.data
  | some .config => (some ∘ .config) <$> configTransaction e.payload.data signer
  | _ => pure none

/-- The transaction of an entry, nothing when it is of another kind. -/
def transaction (index size : Nat) (code : UInt8) (e : Entry) :
    Except DecodeError (Option Transaction) := do
  let extension ← decodeAs ChaincodeHeaderExtension "chaincode header extension"
    e.channelHeader.extension
  let signatureHeader ← decodeAs SignatureHeader "signature header" e.header.signatureHeader
  let signer := Signer.ofHeader signatureHeader
  let body? ← body e signer
  return body?.map fun body =>
    { index, size, body, signer
      signature := e.envelope.signature
      header := .of e.channelHeader extension.chaincodeId
      validationCode := code
      validationName := ValidationCode.nameOfByte code }

/-- The transaction of the entry at `index`, nothing when it is left out. -/
def shown? (codes : Bytes) (index : Nat) (entry : Bytes) : Option Transaction := do
  let e ← (Entry.ofBytes? entry).toOption
  (transaction index entry.length (codes.getD index notValidated) e).toOption.join

/-! ## Entry by entry -/

/-- What the entries of a block give to its view. -/
structure Gathered where
  transactions : List Transaction := []
  channelId : String := ""
  firstTxTime : Option Timestamp := none
  config : Option Json := none

/-- One more entry. The first gives its time, whether or not it is shown. Each that is shown gives
its channel, and its configuration if it has one, in place of those before it. -/
def Gathered.add (codes : Bytes) (g : Gathered) (index : Nat) (entry : Bytes) : Gathered :=
  let g :=
    if index = 0 then
      { g with firstTxTime := (Entry.ofBytes? entry).toOption.bind (·.channelHeader.timestamp) }
    else g
  match shown? codes index entry with
  | none => g
  | some t =>
    { g with
      transactions := g.transactions ++ [t]
      channelId := t.header.channelId
      config := (t.config?.map (·.config)).or g.config }

def gather (codes : Bytes) (entries : List Bytes) : Gathered :=
  entries.zipIdx.foldl (fun g (entry, index) => g.add codes index entry) {}

/-! ## The whole block -/

/-- The full view of a block, which has to have a header. -/
def decode (b : Protocol.Block) : Except DecodeError Full := do
  let header ← require "block header" b.header
  let codes := validationCodes b b.entries.length
  let gathered := gather codes b.entries
  return {
    number := header.number
    previousHash := header.previousHash
    dataHash := header.dataHash
    blockHash := headerHash header
    channelId := gathered.channelId
    txCount := b.entries.length
    transactions := gathered.transactions
    creatorSignature := slotSignature? b .signatures
    lastConfig := lastConfigSlot b
    transactionFilter := codes
    ordererMetadata := ordererSlot b
    firstTxTime := gathered.firstTxTime
    size := Wire.size b
    config := gathered.config }

/-- The full view of an encoded block. -/
def decodeBytes (bytes : Bytes) : Except DecodeError Full := do
  decode (← decodeAs Protocol.Block "block" bytes)

end LedgerClient.Block
