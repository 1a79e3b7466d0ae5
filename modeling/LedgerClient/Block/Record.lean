/-
What an application sees of a block.

A block is shown in full or filtered. The full view holds every transaction
that could be taken apart, with signers, arguments, endorsements and
read-write sets; the filtered view only the read-write sets of chaincode
transactions. Both keep the validation codes of all entries.
-/
import LedgerClient.Json
import LedgerClient.Protocol.Block
import LedgerClient.Protocol.Chaincode
import LedgerClient.Protocol.ReadWriteSet

namespace LedgerClient.Block

open Protocol

/-- Who signed: the organization, the certificate as text, and the nonce signed with. -/
structure Signer where
  mspId : String := ""
  certificate : String := ""
  nonce : Bytes := []
  deriving DecidableEq, Repr

/-- The first signature over a metadata slot. -/
structure SlotSignature where
  signer : Signer
  signature : Bytes
  deriving DecidableEq, Repr

/-- Which block held the channel's configuration when this one was made. -/
structure LastConfigSlot where
  blockNumber : UInt64 := 0
  signature : Option SlotSignature := none
  deriving DecidableEq, Repr

structure OrdererSlot where
  lastOffsetPersisted : UInt64 := 0
  signature : Option SlotSignature := none
  deriving DecidableEq, Repr

/-- A channel header without its opaque parts. -/
structure TransactionHeader where
  type : Int32 := 0
  version : Int32 := 0
  timestamp : Option Timestamp := none
  channelId : String := ""
  txId : String := ""
  epoch : UInt64 := 0
  chaincodeId : Option ChaincodeId := none
  deriving DecidableEq, Repr

/-- The chaincode call a transaction makes, its arguments as text. -/
structure Invocation where
  chaincodeType : Int32 := 0
  chaincodeId : Option ChaincodeId := none
  args : List String := []
  timeout : Int32 := 0
  deriving DecidableEq, Repr

structure Endorsement where
  signer : Signer
  signature : Bytes
  deriving DecidableEq, Repr

/-- What a transaction read and wrote in one namespace. -/
structure NamespaceAccess where
  space : String := ""
  reads : List KvRead := []
  writes : List KvWrite := []
  /-- The keys whose metadata it wrote. -/
  metadataWrites : List String := []
  /-- How many ranges it queried. -/
  rangeQueries : Nat := 0
  deriving DecidableEq, Repr

structure EndorserTransaction where
  actionSigner : Signer
  invocation : Invocation
  endorsements : List Endorsement
  proposalHash : Bytes
  response : Option Response
  event : Option ChaincodeEvent
  accesses : List NamespaceAccess
  deriving DecidableEq, Repr

structure ConfigTransaction where
  actionSigner : Signer
  /-- The hash of the payload of the update that led to this configuration. -/
  proposalHash : Bytes
  lastUpdateHeader : TransactionHeader
  config : Json

inductive Body where
  | endorser (tx : EndorserTransaction)
  | config (tx : ConfigTransaction)

structure Transaction where
  index : Nat
  signature : Bytes
  header : TransactionHeader
  signer : Signer
  validationCode : UInt8
  validationName : String
  size : Nat
  body : Body

namespace Transaction

def isValid (t : Transaction) : Bool := t.validationCode == 0

def endorser? (t : Transaction) : Option EndorserTransaction :=
  match t.body with
  | .endorser tx => some tx
  | .config _ => none

def config? (t : Transaction) : Option ConfigTransaction :=
  match t.body with
  | .endorser _ => none
  | .config tx => some tx

end Transaction

structure Full where
  number : UInt64
  previousHash : Bytes
  dataHash : Bytes
  blockHash : Bytes
  /-- The channel of the last transaction shown. -/
  channelId : String
  /-- The number of entries, shown or not. -/
  txCount : Nat
  transactions : List Transaction
  creatorSignature : Option SlotSignature
  lastConfig : LastConfigSlot
  transactionFilter : Bytes
  ordererMetadata : OrdererSlot
  /-- The time of the first entry. -/
  firstTxTime : Option Timestamp
  size : Nat
  /-- The configuration of the last configuration transaction shown. -/
  config : Option Json

structure FilteredTransaction where
  index : Nat := 0
  txId : String := ""
  accesses : List NamespaceAccess := []
  validationCode : UInt8 := 0
  validationName : String := ""
  size : Nat := 0
  deriving DecidableEq, Repr

structure Filtered where
  txCount : Nat := 0
  number : UInt64 := 0
  blockHash : Bytes := []
  previousHash : Bytes := []
  lastConfigBlock : UInt64 := 0
  dataHash : Bytes := []
  transactionFilter : Bytes := []
  transactions : List FilteredTransaction := []
  deriving DecidableEq, Repr

/-- When a transaction was made, in seconds, and the number of its block. -/
structure TransactionTime where
  blockNumber : UInt64 := 0
  seconds : Int64 := 0
  deriving DecidableEq, Repr

end LedgerClient.Block
