/-
Views of a block as JSON documents.
-/
import LedgerClient.Block.Record

namespace LedgerClient.Block

open Protocol (ChaincodeId ChaincodeEvent KvRead KvWrite Response Timestamp)

def timestampJson (t : Timestamp) : Json :=
  .object [("seconds", .int t.seconds.toInt), ("nanos", .int t.nanos.toInt)]

def chaincodeIdJson (c : ChaincodeId) : Json :=
  .object [("path", .text c.path), ("name", .text c.name), ("version", .text c.version)]

def Signer.toJson (s : Signer) : Json :=
  .object [("msp_id", .text s.mspId), ("certificate", .text s.certificate), ("nonce", .hex s.nonce)]

def SlotSignature.toJson (s : SlotSignature) : Json :=
  .object [("signature_header", s.signer.toJson), ("signature", .hex s.signature)]

def LastConfigSlot.toJson (s : LastConfigSlot) : Json :=
  .object [("last_config_block_num", .nat s.blockNumber.toNat),
    ("signature_data", .optional SlotSignature.toJson s.signature)]

def OrdererSlot.toJson (s : OrdererSlot) : Json :=
  .object [("last_offset_persisted", .nat s.lastOffsetPersisted.toNat),
    ("signature_data", .optional SlotSignature.toJson s.signature)]

def TransactionHeader.toJson (h : TransactionHeader) : Json :=
  .object [("header_type", .int h.type.toInt), ("version", .int h.version.toInt),
    ("timestamp", .optional timestampJson h.timestamp), ("channel_id", .text h.channelId),
    ("tx_id", .text h.txId), ("epoch", .nat h.epoch.toNat),
    ("chaincode_id", .optional chaincodeIdJson h.chaincodeId)]

def Invocation.toJson (i : Invocation) : Json :=
  .object [("chaincode_type", .int i.chaincodeType.toInt),
    ("chaincode_id", .optional chaincodeIdJson i.chaincodeId), ("args", .texts i.args),
    ("timeout", .int i.timeout.toInt)]

def Endorsement.toJson (e : Endorsement) : Json :=
  .object [("signature_header", e.signer.toJson), ("signature", .hex e.signature)]

def readJson (r : KvRead) : Json :=
  .object [("key", .text r.key),
    ("version", .optional (fun v => .list [.nat v.blockNum.toNat, .nat v.txNum.toNat]) r.version)]

def writeJson (w : KvWrite) : Json :=
  .object [("key", .text w.key), ("is_delete", .bool w.isDelete), ("value", .hex w.value)]

def NamespaceAccess.toJson (a : NamespaceAccess) : Json :=
  .object [("namespace", .text a.space), ("reads", .listOf readJson a.reads),
    ("writes", .listOf writeJson a.writes), ("metadata_writes", .texts a.metadataWrites),
    ("range_queries", .nat a.rangeQueries)]

def responseJson (r : Response) : Json :=
  .object [("status", .int r.status.toInt), ("message", .text r.message), ("payload", .hex r.payload)]

def eventJson (e : ChaincodeEvent) : Json :=
  .object [("chaincode_id", .text e.chaincodeId), ("tx_id", .text e.txId),
    ("event_name", .text e.eventName), ("payload", .hex e.payload)]

/-- The members that a body adds to its transaction's document. -/
def Body.members : Body → List (String × Json)
  | .endorser tx =>
    [("kind", .text "endorser"), ("action_signature_header", tx.actionSigner.toJson),
      ("chaincode_spec", tx.invocation.toJson),
      ("endorsements", .listOf Endorsement.toJson tx.endorsements),
      ("proposal_hash", .hex tx.proposalHash), ("response", .optional responseJson tx.response),
      ("events", .optional eventJson tx.event),
      ("ns_rw_sets", .listOf NamespaceAccess.toJson tx.accesses)]
  | .config tx =>
    [("kind", .text "config"), ("action_signature_header", tx.actionSigner.toJson),
      ("proposal_hash", .hex tx.proposalHash),
      ("last_update_channel_header", tx.lastUpdateHeader.toJson), ("config", tx.config)]

def Transaction.toJson (t : Transaction) : Json :=
  .object ([("index", .nat t.index), ("signature", .hex t.signature),
    ("channel_header", t.header.toJson), ("signature_header", t.signer.toJson),
    ("validation_code", .nat t.validationCode.toNat),
    ("validation_code_name", .text t.validationName), ("size", .nat t.size)] ++ t.body.members)

def Full.toJson (b : Full) : Json :=
  .object [("number", .nat b.number.toNat), ("previous_hash", .hex b.previousHash),
    ("data_hash", .hex b.dataHash), ("block_hash", .hex b.blockHash),
    ("channel_id", .text b.channelId), ("tx_num", .nat b.txCount),
    ("transactions", .listOf Transaction.toJson b.transactions),
    ("creator_signature", .optional SlotSignature.toJson b.creatorSignature),
    ("last_config", b.lastConfig.toJson), ("transaction_filter", .hex b.transactionFilter),
    ("orderer_metadata", b.ordererMetadata.toJson),
    ("first_tx_time", .optional timestampJson b.firstTxTime), ("size", .nat b.size),
    ("config", b.config.getD .null)]

def FilteredTransaction.toJson (t : FilteredTransaction) : Json :=
  .object [("index", .nat t.index), ("tx_id", .text t.txId),
    ("ns_rw_sets", .listOf NamespaceAccess.toJson t.accesses),
    ("validation_code", .nat t.validationCode.toNat),
    ("validation_code_name", .text t.validationName), ("size", .nat t.size)]

def Filtered.toJson (b : Filtered) : Json :=
  .object [("tx_num", .nat b.txCount), ("block_num", .nat b.number.toNat),
    ("block_hash", .hex b.blockHash), ("pre_block_hash", .hex b.previousHash),
    ("last_config_block", .nat b.lastConfigBlock.toNat), ("tx_hash", .hex b.dataHash),
    ("transaction_filter", .hex b.transactionFilter),
    ("transactions", .listOf FilteredTransaction.toJson b.transactions)]

def TransactionTime.toJson (t : TransactionTime) : Json :=
  .object [("block_num", .nat t.blockNumber.toNat), ("timestamp", .int t.seconds.toInt)]

end LedgerClient.Block
