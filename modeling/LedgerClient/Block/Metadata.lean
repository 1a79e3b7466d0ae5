/-
The metadata slots of a block.

Each slot is read on its own; one that is missing or malformed gives an empty
or zero value and leaves the rest of the block readable. Only the search for
the block of the last configuration reports what went wrong.
-/
import LedgerClient.Block.Entry

namespace LedgerClient.Block

open Protocol

/-- The slots by position. -/
inductive Slot where
  | signatures | lastConfig | transactionsFilter | orderer
  deriving DecidableEq, Repr

def Slot.index : Slot → Nat
  | signatures => 0
  | lastConfig => 1
  | transactionsFilter => 2
  | orderer => 3

/-- The code of a transaction that no peer has validated. -/
def notValidated : UInt8 := 254

def slotBytes? (b : Protocol.Block) (s : Slot) : Option Bytes :=
  b.metadata.bind fun m => m.slots[s.index]?

def slot (b : Protocol.Block) (s : Slot) : Except DecodeError Metadata := do
  let bytes ← require "metadata slot" (slotBytes? b s)
  decodeAs Metadata "metadata" bytes

/-- The first signature over a slot, if its header can be read. -/
def slotSignature? (b : Protocol.Block) (s : Slot) : Option SlotSignature := do
  let m ← (slot b s).toOption
  let first ← m.signatures.head?
  let header ← Wire.decode? SignatureHeader first.signatureHeader
  return { signer := .ofHeader header, signature := first.signature }

def lastConfigSlot (b : Protocol.Block) : LastConfigSlot :=
  let value := (slot b .lastConfig).toOption.bind fun m => Wire.decode? LastConfig m.value
  { blockNumber := (value.map (·.index)).getD 0, signature := slotSignature? b .lastConfig }

/-- A 64-bit number with its bytes in the opposite order. -/
def swapBytes (n : UInt64) : UInt64 := (Bytes.toNat (Bytes.ofNat 8 n.toNat).reverse).toUInt64

/-- The offset is shown with its bytes in the opposite order. -/
def ordererSlot (b : Protocol.Block) : OrdererSlot :=
  let value := (slot b .orderer).toOption.bind fun m => Wire.decode? KafkaMetadata m.value
  { lastOffsetPersisted := (value.map fun k => swapBytes k.lastOffsetPersisted.toUInt64).getD 0,
    signature := slotSignature? b .orderer }

/-- One code for each of `count` transactions: the bytes of the filter slot, and `notValidated`
where it is too short. -/
def validationCodes (b : Protocol.Block) (count : Nat) : Bytes :=
  let filter := ((slotBytes? b .transactionsFilter).getD []).take count
  filter ++ List.replicate (count - filter.length) notValidated

/-- The number of the block that holds the configuration in force: from the value that the
orderers signed, or, if they signed an empty one, from the slot of its own. -/
def lastConfigIndex (b : Protocol.Block) : Except DecodeError UInt64 := do
  let signatures ← slot b .signatures
  if signatures.value.isEmpty then
    let m ← slot b .lastConfig
    let config ← decodeAs LastConfig "last config" m.value
    return config.index
  else
    let signed ← decodeAs OrdererBlockMetadata "orderer block metadata" signatures.value
    let config ← require "last config in orderer block metadata" signed.lastConfig
    return config.index

end LedgerClient.Block
