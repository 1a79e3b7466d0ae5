/-
Read-write sets: what a simulated call read and would write, by namespace.
-/
import LedgerClient.Wire.Typed

namespace LedgerClient.Protocol

open Wire Wire.Message

/-- Where a key was last written. -/
structure Version where
  blockNum : UInt64 := 0
  txNum : UInt64 := 0
  deriving DecidableEq, Repr

instance : Typed Version where
  type := .version
  ofMessage m := ⟨m.uint64 1, m.uint64 2⟩
  toMessage v := ofUInt64 1 v.blockNum ++ ofUInt64 2 v.txNum

structure KvRead where
  key : String := ""
  version : Option Version := none
  deriving DecidableEq, Repr

instance : Typed KvRead where
  type := .kvRead
  ofMessage m := ⟨m.text 1, m.typed? Version 2⟩
  toMessage r := ofText 1 r.key ++ ofTyped? 2 r.version

structure KvWrite where
  key : String := ""
  isDelete : Bool := false
  value : Bytes := []
  deriving DecidableEq, Repr

instance : Typed KvWrite where
  type := .kvWrite
  ofMessage m := ⟨m.text 1, m.bool 2, m.bytes 3⟩
  toMessage w := ofText 1 w.key ++ ofBool 2 w.isDelete ++ ofBytes 3 w.value

structure KvMetadataEntry where
  name : String := ""
  value : Bytes := []
  deriving DecidableEq, Repr

instance : Typed KvMetadataEntry where
  type := .kvMetadataEntry
  ofMessage m := ⟨m.text 1, m.bytes 2⟩
  toMessage e := ofText 1 e.name ++ ofBytes 2 e.value

structure KvMetadataWrite where
  key : String := ""
  entries : List KvMetadataEntry := []
  deriving DecidableEq, Repr

instance : Typed KvMetadataWrite where
  type := .kvMetadataWrite
  ofMessage m := ⟨m.text 1, m.allTyped KvMetadataEntry 2⟩
  toMessage w := ofText 1 w.key ++ ofAllTyped 2 w.entries

structure QueryReads where
  reads : List KvRead := []
  deriving DecidableEq, Repr

instance : Typed QueryReads where
  type := .queryReads
  ofMessage m := ⟨m.allTyped KvRead 1⟩
  toMessage q := ofAllTyped 1 q.reads

structure QueryReadsMerkleSummary where
  maxDegree : UInt32 := 0
  maxLevel : UInt32 := 0
  maxLevelHashes : List Bytes := []
  deriving DecidableEq, Repr

instance : Typed QueryReadsMerkleSummary where
  type := .queryReadsMerkleSummary
  ofMessage m := ⟨m.uint32 1, m.uint32 2, m.allBytes 3⟩
  toMessage s := ofUInt32 1 s.maxDegree ++ ofUInt32 2 s.maxLevel ++ ofAllBytes 3 s.maxLevelHashes

/-- What a range query saw: the reads themselves or a digest of them. -/
inductive ReadsInfo where
  | raw (reads : QueryReads)
  | merkle (summary : QueryReadsMerkleSummary)
  deriving DecidableEq, Repr

structure RangeQueryInfo where
  startKey : String := ""
  endKey : String := ""
  exhausted : Bool := false
  readsInfo : Option ReadsInfo := none
  deriving DecidableEq, Repr

instance : Typed RangeQueryInfo where
  type := .rangeQueryInfo
  ofMessage m :=
    ⟨m.text 1, m.text 2, m.bool 3,
      ((m.typed? QueryReads 4).map .raw).or ((m.typed? QueryReadsMerkleSummary 5).map .merkle)⟩
  toMessage q :=
    ofText 1 q.startKey ++ ofText 2 q.endKey ++ ofBool 3 q.exhausted
      ++ match q.readsInfo with
        | none => []
        | some (.raw r) => ofTyped? 4 (some r)
        | some (.merkle s) => ofTyped? 5 (some s)

structure KvRwSet where
  reads : List KvRead := []
  rangeQueries : List RangeQueryInfo := []
  writes : List KvWrite := []
  metadataWrites : List KvMetadataWrite := []
  deriving DecidableEq, Repr

instance : Typed KvRwSet where
  type := .kvRwSet
  ofMessage m :=
    ⟨m.allTyped KvRead 1, m.allTyped RangeQueryInfo 2, m.allTyped KvWrite 3,
      m.allTyped KvMetadataWrite 4⟩
  toMessage s :=
    ofAllTyped 1 s.reads ++ ofAllTyped 2 s.rangeQueries ++ ofAllTyped 3 s.writes
      ++ ofAllTyped 4 s.metadataWrites

structure CollectionHashedReadWriteSet where
  collectionName : String := ""
  hashedRwset : Bytes := []
  privateRwsetHash : Bytes := []
  deriving DecidableEq, Repr

instance : Typed CollectionHashedReadWriteSet where
  type := .collectionHashedReadWriteSet
  ofMessage m := ⟨m.text 1, m.bytes 2, m.bytes 3⟩
  toMessage c := ofText 1 c.collectionName ++ ofBytes 2 c.hashedRwset ++ ofBytes 3 c.privateRwsetHash

/-- One namespace's encoded set. -/
structure NsReadWriteSet where
  space : String := ""
  rwset : Bytes := []
  collections : List CollectionHashedReadWriteSet := []
  deriving DecidableEq, Repr

instance : Typed NsReadWriteSet where
  type := .nsReadWriteSet
  ofMessage m := ⟨m.text 1, m.bytes 2, m.allTyped CollectionHashedReadWriteSet 3⟩
  toMessage s := ofText 1 s.space ++ ofBytes 2 s.rwset ++ ofAllTyped 3 s.collections

structure TxReadWriteSet where
  dataModel : Int32 := 0
  namespaces : List NsReadWriteSet := []
  deriving DecidableEq, Repr

instance : Typed TxReadWriteSet where
  type := .txReadWriteSet
  ofMessage m := ⟨m.int32 1, m.allTyped NsReadWriteSet 2⟩
  toMessage s := ofInt32 1 s.dataModel ++ ofAllTyped 2 s.namespaces

end LedgerClient.Protocol
