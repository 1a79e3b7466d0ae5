/-
Blocks, what a peer says about a chain, and read-write sets: the structures of a
ledger that are read back from what they are written as.
-/
import LedgerClient.Proofs.Wire.Typed
import LedgerClient.Protocol.Block
import LedgerClient.Protocol.ReadWriteSet

namespace LedgerClient.Protocol

open Wire Wire.Message

/-! ## Blocks -/

theorem BlockHeader.faithful (h : BlockHeader) : Faithful 0 h :=
  ((Segment.scalar rfl).upTo.append (.scalar rfl) rfl |>.append (.scalar rfl) rfl).faithful rfl
    (by simp [Typed.ofMessage])

theorem BlockData.faithful (d : BlockData) : Faithful 0 d :=
  (Segment.allBytes rfl).upTo.faithful rfl (by simp [Typed.ofMessage])

theorem BlockMetadata.faithful (d : BlockMetadata) : Faithful 0 d :=
  (Segment.allBytes rfl).upTo.faithful rfl (by simp [Typed.ofMessage])

theorem Block.faithful (b : Block) : Faithful 1 b := by
  have hh : ∀ y, b.header = some y → Faithful 0 y := fun y _ => y.faithful
  have hd : ∀ y, b.data = some y → Faithful 0 y := fun y _ => y.faithful
  have hm : ∀ y, b.metadata = some y → Faithful 0 y := fun y _ => y.faithful
  refine ((Segment.child rfl hh).upTo.append (.child rfl hd) rfl |>.append (.child rfl hm) rfl).faithful rfl ?_
  simp only [Typed.ofMessage]
  simp [typed_self hh, typed_self hd, typed_self hm]

theorem BlockchainInfo.faithful (i : BlockchainInfo) : Faithful 0 i :=
  ((Segment.scalar rfl).upTo.append (.scalar rfl) rfl |>.append (.scalar rfl) rfl).faithful rfl
    (by simp [Typed.ofMessage])

/-! ## Read-write sets -/

theorem Version.faithful (v : Version) : Faithful 0 v :=
  ((Segment.scalar rfl).upTo.append (.scalar rfl) rfl).faithful rfl (by simp [Typed.ofMessage])

theorem KvRead.faithful (r : KvRead) : Faithful 1 r := by
  have hv : ∀ y, r.version = some y → Faithful 0 y := fun y _ => y.faithful
  refine ((Segment.scalar rfl).upTo.append (.child rfl hv) rfl).faithful rfl ?_
  simp only [Typed.ofMessage]
  simp [typed_self hv]

theorem KvWrite.faithful (w : KvWrite) : Faithful 0 w :=
  ((Segment.scalar rfl).upTo.append (.scalar rfl) rfl |>.append (.scalar rfl) rfl).faithful rfl
    (by simp [Typed.ofMessage])

theorem KvMetadataEntry.faithful (e : KvMetadataEntry) : Faithful 0 e :=
  ((Segment.scalar rfl).upTo.append (.scalar rfl) rfl).faithful rfl (by simp [Typed.ofMessage])

theorem KvMetadataWrite.faithful (w : KvMetadataWrite) : Faithful 1 w := by
  have he : ∀ y ∈ w.entries, Faithful 0 y := fun y _ => y.faithful
  refine ((Segment.scalar rfl).upTo.append (.children rfl he) rfl).faithful rfl ?_
  simp only [Typed.ofMessage]
  simp [allTyped_self he]

theorem QueryReads.faithful (q : QueryReads) : Faithful 2 q := by
  have hr : ∀ y ∈ q.reads, Faithful 1 y := fun y _ => y.faithful
  refine (Segment.children rfl hr).upTo.faithful rfl ?_
  simp only [Typed.ofMessage]
  simp [allTyped_self hr]

theorem QueryReadsMerkleSummary.faithful (s : QueryReadsMerkleSummary) : Faithful 0 s :=
  ((Segment.scalar rfl).upTo.append (.scalar rfl) rfl |>.append (.allBytes rfl) rfl).faithful rfl
    (by simp [Typed.ofMessage])

/-- What a range query saw is at most one of two structures, each under a number of its own. -/
theorem RangeQueryInfo.faithful (q : RangeQueryInfo) : Faithful 3 q := by
  obtain ⟨startKey, endKey, exhausted, readsInfo⟩ := q
  let keys := ofText 1 startKey ++ ofText 2 endKey ++ ofBool 3 exhausted
  have hkeys : UpTo keys (.type .rangeQueryInfo) 3 3 :=
    (Segment.scalar rfl).upTo.append (.scalar rfl) rfl |>.append (.scalar rfl) rfl
  rcases readsInfo with _ | reads | summary
  · refine hkeys.faithful (List.append_nil _) ?_
    simp only [Typed.ofMessage]
    simp
  · obtain ⟨hf, hn⟩ : (Field.message 4 (Typed.toMessage reads)).Fits (· < ·) (.type .rangeQueryInfo) ∧
        (Field.message 4 (Typed.toMessage reads)).nesting ≤ 3 := fits_of_faithful reads.faithful rfl rfl nofun
    let m := keys ++ ofTyped? 4 (some reads)
    have hread : m.typed? QueryReads 4 = some reads := by simp [m, keys, reads.faithful.ofMessage_toMessage]
    refine UpTo.faithful (m := m) (hkeys.append (.field hf hn) rfl) rfl ?_
    simp only [Typed.ofMessage, hread]
    simp [m, keys]
  · obtain ⟨hf, hn⟩ : (Field.message 5 (Typed.toMessage summary)).Fits (· < ·) (.type .rangeQueryInfo) ∧
        (Field.message 5 (Typed.toMessage summary)).nesting ≤ 1 := fits_of_faithful summary.faithful rfl rfl nofun
    let m := keys ++ ofTyped? 5 (some summary)
    have hnone : m.typed? QueryReads 4 = none := by simp [m, keys]
    have hread : m.typed? QueryReadsMerkleSummary 5 = some summary := by
      simp [m, keys, summary.faithful.ofMessage_toMessage]
    refine UpTo.faithful (m := m) (hkeys.append (.field hf (Nat.le_trans hn (by decide))) rfl) rfl ?_
    simp only [Typed.ofMessage, hnone, hread]
    simp [m, keys]

theorem KvRwSet.faithful (s : KvRwSet) : Faithful 4 s := by
  have hr : ∀ y ∈ s.reads, Faithful 3 y := fun y _ => y.faithful.mono (by decide)
  have hq : ∀ y ∈ s.rangeQueries, Faithful 3 y := fun y _ => y.faithful
  have hw : ∀ y ∈ s.writes, Faithful 3 y := fun y _ => y.faithful.mono (by decide)
  have hm : ∀ y ∈ s.metadataWrites, Faithful 3 y := fun y _ => y.faithful.mono (by decide)
  refine ((Segment.children rfl hr).upTo.append (.children rfl hq) rfl |>.append (.children rfl hw) rfl
    |>.append (.children rfl hm) rfl).faithful rfl ?_
  simp only [Typed.ofMessage]
  simp [allTyped_self hr, allTyped_self hq, allTyped_self hw, allTyped_self hm]

theorem CollectionHashedReadWriteSet.faithful (c : CollectionHashedReadWriteSet) : Faithful 0 c :=
  ((Segment.scalar rfl).upTo.append (.scalar rfl) rfl |>.append (.scalar rfl) rfl).faithful rfl
    (by simp [Typed.ofMessage])

theorem NsReadWriteSet.faithful (s : NsReadWriteSet) : Faithful 1 s := by
  have hc : ∀ y ∈ s.collections, Faithful 0 y := fun y _ => y.faithful
  refine ((Segment.scalar rfl).upTo.append (.scalar rfl) rfl |>.append (.children rfl hc) rfl).faithful rfl ?_
  simp only [Typed.ofMessage]
  simp [allTyped_self hc]

theorem TxReadWriteSet.faithful (s : TxReadWriteSet) : Faithful 2 s := by
  have hn : ∀ y ∈ s.namespaces, Faithful 1 y := fun y _ => y.faithful
  refine ((Segment.scalar rfl).upTo.append (.children rfl hn) rfl).faithful rfl ?_
  simp only [Typed.ofMessage]
  simp [allTyped_self hn]

end LedgerClient.Protocol
