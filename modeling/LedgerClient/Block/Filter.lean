/-
The filtered view of a block, and the search for a transaction's time.
-/
import LedgerClient.Block.Header
import LedgerClient.Block.Metadata
import LedgerClient.Protocol.FilteredBlock

namespace LedgerClient.Block

open Protocol

/-- The accesses of a chaincode transaction from the data of its payload. -/
def entryAccesses (data : Bytes) : Except DecodeError (List NamespaceAccess) := do
  accesses (← EndorsedAction.ofBytes? data).chaincodeAction.results

/-- The chaincode transaction of the entry at `index`, nothing when it is left out. -/
def filtered? (codes : Bytes) (index : Nat) (entry : Bytes) : Option FilteredTransaction := do
  let e ← (Entry.ofBytes? entry).toOption
  if HeaderType.ofCode? e.channelHeader.type ≠ some .endorserTransaction then none
  let accesses ← (entryAccesses e.payload.data).toOption
  let code := codes.getD index notValidated
  return {
    index, accesses
    txId := e.channelHeader.txId
    validationCode := code
    validationName := ValidationCode.nameOfByte code
    size := entry.length }

/-- The filtered view of a block, which has to have a header. -/
def filter (b : Protocol.Block) : Except DecodeError Filtered := do
  let header ← require "block header" b.header
  let codes := validationCodes b b.entries.length
  return {
    txCount := b.entries.length
    number := header.number
    blockHash := headerHash header
    previousHash := header.previousHash
    lastConfigBlock := (lastConfigSlot b).blockNumber
    dataHash := header.dataHash
    transactionFilter := codes
    transactions := (b.entries.mapIdx (filtered? codes)).filterMap id }

/-- The time of the first entry with the given transaction id, zero if there is none or it has no
time. Entries that cannot be taken apart are passed over. -/
def transactionTime (b : Protocol.Block) (txId : String) : TransactionTime :=
  let headers := b.entries.filterMap fun e => (Entry.ofBytes? e).toOption.map (·.channelHeader)
  let found := headers.find? (·.txId == txId)
  { blockNumber := (b.header.map (·.number)).getD 0,
    seconds := ((found.bind (·.timestamp)).map (·.seconds)).getD 0 }

/-- The filtered view made of a peer's own filtered block, which has neither hashes nor accesses.
A code that does not fit a byte becomes the one for other reasons. -/
def ofPeerFiltered (b : Protocol.FilteredBlock) : Filtered :=
  let code (t : Protocol.FilteredTransaction) : UInt8 :=
    if 0 ≤ t.validationCode ∧ t.validationCode ≤ 255 then t.validationCode.toInt.toNat.toUInt8
    else 255
  { txCount := b.transactions.length
    number := b.number
    transactionFilter := b.transactions.map code
    transactions := b.transactions.mapIdx fun index t =>
      { index, txId := t.txId, validationCode := code t,
        validationName := ValidationCode.nameOfByte (code t) } }

end LedgerClient.Block
