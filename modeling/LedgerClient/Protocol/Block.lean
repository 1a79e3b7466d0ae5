/-
Blocks as they travel: a header, the encoded entries, and the metadata slots.
-/
import LedgerClient.Protocol.Envelope

namespace LedgerClient.Protocol

open Wire Wire.Message

structure BlockHeader where
  number : UInt64 := 0
  previousHash : Bytes := []
  dataHash : Bytes := []
  deriving DecidableEq, Repr

instance : Typed BlockHeader where
  type := .blockHeader
  ofMessage m := ⟨m.uint64 1, m.bytes 2, m.bytes 3⟩
  toMessage h := ofUInt64 1 h.number ++ ofBytes 2 h.previousHash ++ ofBytes 3 h.dataHash

structure BlockData where
  entries : List Bytes := []
  deriving DecidableEq, Repr

instance : Typed BlockData where
  type := .blockData
  ofMessage m := ⟨m.allBytes 1⟩
  toMessage d := ofAllBytes 1 d.entries

structure BlockMetadata where
  slots : List Bytes := []
  deriving DecidableEq, Repr

instance : Typed BlockMetadata where
  type := .blockMetadata
  ofMessage m := ⟨m.allBytes 1⟩
  toMessage d := ofAllBytes 1 d.slots

structure Block where
  header : Option BlockHeader := none
  data : Option BlockData := none
  metadata : Option BlockMetadata := none
  deriving DecidableEq, Repr

instance : Typed Block where
  type := .block
  ofMessage m := ⟨m.typed? BlockHeader 1, m.typed? BlockData 2, m.typed? BlockMetadata 3⟩
  toMessage b := ofTyped? 1 b.header ++ ofTyped? 2 b.data ++ ofTyped? 3 b.metadata

/-- The encoded entries of a block, none when it has no data. -/
def Block.entries (b : Block) : List Bytes :=
  match b.data with
  | some d => d.entries
  | none => []

structure MetadataSignature where
  signatureHeader : Bytes := []
  signature : Bytes := []
  identifierHeader : Bytes := []
  deriving DecidableEq, Repr

instance : Typed MetadataSignature where
  type := .metadataSignature
  ofMessage m := ⟨m.bytes 1, m.bytes 2, m.bytes 3⟩
  toMessage s :=
    ofBytes 1 s.signatureHeader ++ ofBytes 2 s.signature ++ ofBytes 3 s.identifierHeader

/-- What a metadata slot holds: a value and the signatures over it. -/
structure Metadata where
  value : Bytes := []
  signatures : List MetadataSignature := []
  deriving DecidableEq, Repr

instance : Typed Metadata where
  type := .metadata
  ofMessage m := ⟨m.bytes 1, m.allTyped MetadataSignature 2⟩
  toMessage d := ofBytes 1 d.value ++ ofAllTyped 2 d.signatures

structure LastConfig where
  index : UInt64 := 0
  deriving DecidableEq, Repr

instance : Typed LastConfig where
  type := .lastConfig
  ofMessage m := ⟨m.uint64 1⟩
  toMessage c := ofUInt64 1 c.index

structure OrdererBlockMetadata where
  lastConfig : Option LastConfig := none
  consenterMetadata : Bytes := []
  deriving DecidableEq, Repr

instance : Typed OrdererBlockMetadata where
  type := .ordererBlockMetadata
  ofMessage m := ⟨m.typed? LastConfig 1, m.bytes 2⟩
  toMessage d := ofTyped? 1 d.lastConfig ++ ofBytes 2 d.consenterMetadata

structure KafkaMetadata where
  lastOffsetPersisted : Int64 := 0
  lastResubmittedOffset : Int64 := 0
  lastResubmittedConfigOffset : Int64 := 0
  deriving DecidableEq, Repr

instance : Typed KafkaMetadata where
  type := .kafkaMetadata
  ofMessage m := ⟨m.int64 1, m.int64 2, m.int64 3⟩
  toMessage d :=
    ofInt64 1 d.lastOffsetPersisted ++ ofInt64 2 d.lastResubmittedOffset
      ++ ofInt64 3 d.lastResubmittedConfigOffset

structure BlockchainInfo where
  height : UInt64 := 0
  currentBlockHash : Bytes := []
  previousBlockHash : Bytes := []
  deriving DecidableEq, Repr

instance : Typed BlockchainInfo where
  type := .blockchainInfo
  ofMessage m := ⟨m.uint64 1, m.bytes 2, m.bytes 3⟩
  toMessage i :=
    ofUInt64 1 i.height ++ ofBytes 2 i.currentBlockHash ++ ofBytes 3 i.previousBlockHash

end LedgerClient.Protocol
