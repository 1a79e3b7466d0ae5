/-
Looking up the time of a transaction in a block.

The search opens entries no further than their channel headers, of whatever type
they are, and takes the first with the transaction's id. An entry that cannot be
opened so far is as good as absent (`headers_of_unread`). Both views open
entries further, so that the time of a transaction in a view is what the search
finds, unless an earlier entry has the same id (`IsFirst.transactionTime_eq`).
-/
import LedgerClient.Proofs.Block.Latest

namespace LedgerClient.Block

open Protocol

variable {b : Protocol.Block} {full : Full} {filtered : Filtered} {e : Entry} {i : Nat} {txId : String}
  {entries front back : List Bytes} {entry unread : Bytes}

/-! ## Headers -/

/-- The channel headers of the entries that can be opened. -/
def headers (entries : List Bytes) : List ChannelHeader :=
  entries.filterMap fun entry => (Entry.ofBytes? entry).toOption.map (·.channelHeader)

theorem headers_append (front back : List Bytes) : headers (front ++ back) = headers front ++ headers back :=
  List.filterMap_append

theorem headers_of_open (ho : e.Open entry) (back : List Bytes) :
    headers (entry :: back) = e.channelHeader :: headers back := by
  rw [headers, List.filterMap_cons, Entry.toOption_ofBytes?_eq_some_iff.2 ho]
  rfl

theorem headers_of_unread (hunread : ∀ e : Entry, ¬ e.Open unread) (back : List Bytes) :
    headers (unread :: back) = headers back := by
  have hclosed : (Entry.ofBytes? unread).toOption = none :=
    Option.eq_none_iff_forall_ne_some.2 fun e he => hunread e (Entry.toOption_ofBytes?_eq_some_iff.1 he)
  rw [headers, List.filterMap_cons, hclosed]
  rfl

theorem mem_headers {c : ChannelHeader} :
    c ∈ headers entries ↔ ∃ entry ∈ entries, ∃ e : Entry, e.Open entry ∧ e.channelHeader = c := by
  simp only [headers, List.mem_filterMap, Option.map_eq_some_iff, Entry.toOption_ofBytes?_eq_some_iff]

/-! ## The search -/

/-- The seconds of a time, zero if there is none. -/
def secondsOf (time : Option Timestamp) : Int64 := (time.map (·.seconds)).getD 0

/-- No entry before the index has the transaction id, among those that can be opened. -/
def NoneBefore (b : Protocol.Block) (txId : String) (i : Nat) : Prop :=
  ∀ j < i, ∀ e, OpensAt b j e → e.channelHeader.txId ≠ txId

/-- The entry at the index is the first with the transaction id. -/
structure IsFirst (b : Protocol.Block) (txId : String) (i : Nat) (e : Entry) : Prop where
  opens : OpensAt b i e
  txId_eq : e.channelHeader.txId = txId
  noneBefore : NoneBefore b txId i

theorem noneBefore_iff : NoneBefore b txId i ↔ ∀ c ∈ headers (b.entries.take i), c.txId ≠ txId := by
  constructor
  · intro h c hc
    obtain ⟨entry, hentry, e, ho, rfl⟩ := mem_headers.1 hc
    obtain ⟨j, hj, rfl⟩ := List.mem_take_iff_getElem.1 hentry
    exact h j (by omega) e ⟨_, List.getElem?_eq_getElem (by omega), ho⟩
  · rintro h j hj e ⟨entry, hentry, ho⟩
    have hmem : entry ∈ b.entries.take i := List.mem_of_getElem? ((List.getElem?_take_of_lt hj).trans hentry)
    exact h _ (mem_headers.2 ⟨entry, hmem, e, ho, rfl⟩)

theorem transactionTime_eq (b : Protocol.Block) (txId : String) : transactionTime b txId =
    { blockNumber := (b.header.map (·.number)).getD 0
      seconds := secondsOf (((headers b.entries).find? (·.txId == txId)).bind (·.timestamp)) } := rfl

theorem IsFirst.find?_headers (h : IsFirst b txId i e) :
    (headers b.entries).find? (·.txId == txId) = some e.channelHeader := by
  obtain ⟨⟨entry, hentry, ho⟩, htx, hbefore⟩ := h
  obtain ⟨hi, hat⟩ := List.getElem?_eq_some_iff.1 hentry
  have hsplit : b.entries = b.entries.take i ++ entry :: b.entries.drop (i + 1) := by
    rw [← hat, ← List.drop_eq_getElem_cons hi, List.take_append_drop]
  have hfront : (headers (b.entries.take i)).find? (·.txId == txId) = none :=
    List.find?_eq_none.2 fun c hc => by simpa using noneBefore_iff.1 hbefore c hc
  rw [hsplit, headers_append, headers_of_open ho, List.find?_append, hfront, Option.none_or,
    List.find?_cons_of_pos (by simpa using htx)]

theorem IsFirst.transactionTime_eq (h : IsFirst b txId i e) : transactionTime b txId =
    { blockNumber := (b.header.map (·.number)).getD 0, seconds := secondsOf e.channelHeader.timestamp } := by
  rw [Block.transactionTime_eq, h.find?_headers, Option.bind_some]

theorem transactionTime_of_missing (h : ∀ i e, OpensAt b i e → e.channelHeader.txId ≠ txId) :
    transactionTime b txId = { blockNumber := (b.header.map (·.number)).getD 0, seconds := 0 } := by
  have hnone : (headers b.entries).find? (·.txId == txId) = none := by
    refine List.find?_eq_none.2 fun c hc => ?_
    obtain ⟨entry, hentry, e, ho, rfl⟩ := mem_headers.1 hc
    obtain ⟨i, hi⟩ := List.mem_iff_getElem?.1 hentry
    simpa using h i e ⟨entry, hi, ho⟩
  rw [transactionTime_eq, hnone]
  rfl

/-- The block with other entries. -/
def withEntries (b : Protocol.Block) (entries : List Bytes) : Protocol.Block := { b with data := some { entries } }

theorem transactionTime_of_unread (hentries : b.entries = front ++ unread :: back)
    (hunread : ∀ e : Entry, ¬ e.Open unread) (txId : String) :
    transactionTime b txId = transactionTime (withEntries b (front ++ back)) txId := by
  have hheaders : headers b.entries = headers (withEntries b (front ++ back)).entries := by
    rw [hentries, headers_append, headers_of_unread hunread, ← headers_append]
    rfl
  rw [transactionTime_eq, transactionTime_eq, hheaders]
  rfl

/-! ## Both views -/

theorem number_of_decode (h : decode b = .ok full) : (b.header.map (·.number)).getD 0 = full.number := by
  obtain ⟨header, hheader, h⟩ := exists_of_bind_eq_ok h
  cases h
  rw [require_eq_ok_iff.1 hheader]
  rfl

theorem number_of_filter (h : filter b = .ok filtered) : (b.header.map (·.number)).getD 0 = filtered.number := by
  obtain ⟨header, hheader, h⟩ := exists_of_bind_eq_ok h
  cases h
  rw [require_eq_ok_iff.1 hheader]
  rfl

/-- **The time of a transaction is that of its entry.** The search gives the number of the block, and the seconds of the
first entry with the id that can be taken apart as far as its channel header; zero if it has no time, or if there is no
such entry. Entries that cannot be taken apart so far make no difference to it. For a transaction in a view of the block
it finds the time of the transaction itself, if no earlier entry has the same id. -/
theorem times_agree (b : Protocol.Block) :
    (∀ txId, (transactionTime b txId).blockNumber = (b.header.map (·.number)).getD 0 ∧
      (∀ i e, IsFirst b txId i e → (transactionTime b txId).seconds = secondsOf e.channelHeader.timestamp) ∧
      ((∀ i e, OpensAt b i e → e.channelHeader.txId ≠ txId) → (transactionTime b txId).seconds = 0)) ∧
    (∀ front unread back, b.entries = front ++ unread :: back → (∀ e : Entry, ¬ e.Open unread) →
      ∀ txId, transactionTime b txId = transactionTime (withEntries b (front ++ back)) txId) ∧
    (∀ full, decode b = .ok full → ∀ t ∈ full.transactions, NoneBefore b t.header.txId t.index →
      transactionTime b t.header.txId = { blockNumber := full.number, seconds := secondsOf t.header.timestamp }) ∧
    ∀ filtered, filter b = .ok filtered → ∀ t ∈ filtered.transactions, NoneBefore b t.txId t.index →
      ∃ e, OpensAt b t.index e ∧ e.channelHeader.txId = t.txId ∧ transactionTime b t.txId =
        { blockNumber := filtered.number, seconds := secondsOf e.channelHeader.timestamp } := by
  refine ⟨fun txId => ⟨rfl, fun i e h => ?_, fun h => ?_⟩, fun front unread back hentries hunread => ?_,
    fun full h t ht hbefore => ?_, fun filtered h t ht hbefore => ?_⟩
  · rw [h.transactionTime_eq]
  · rw [transactionTime_of_missing h]
  · exact transactionTime_of_unread hentries hunread
  · obtain ⟨e, x, -, hopens, hheader, -⟩ := exists_opensAt_of_decode h ht
    have hfirst : IsFirst b t.header.txId t.index e := ⟨hopens, (congrArg (·.txId) hheader).symm, hbefore⟩
    rw [hfirst.transactionTime_eq, number_of_decode h, hheader]
    rfl
  · obtain ⟨e, hopens, htx⟩ := exists_opensAt_of_filter h ht
    have hfirst : IsFirst b t.txId t.index e := ⟨hopens, htx.symm, hbefore⟩
    exact ⟨e, hopens, htx.symm, by rw [hfirst.transactionTime_eq, number_of_filter h]⟩

/-! A block with two entries of one id, behind one that cannot be opened, and a call that both views show. -/

def repeatedBlock : Protocol.Block :=
  let entryAt (seconds : Int64) := plainEntry { txId := "s", timestamp := some { seconds } } []
  { header := some { number := 4 }, data := some { entries := [[255], entryAt 5, entryAt 9, callEntry []] } }

theorem times_agree_repeated :
    transactionTime repeatedBlock "s" = { blockNumber := 4, seconds := 5 } ∧
      transactionTime repeatedBlock "s" =
        transactionTime (withEntries repeatedBlock (repeatedBlock.entries.drop 1)) "s" ∧
      ∃ full filtered, decode repeatedBlock = .ok full ∧ filter repeatedBlock = .ok filtered ∧
        (∃ t ∈ full.transactions, transactionTime repeatedBlock t.header.txId =
          { blockNumber := full.number, seconds := secondsOf t.header.timestamp }) ∧
        ∃ t ∈ filtered.transactions, ∃ e, OpensAt repeatedBlock t.index e ∧ transactionTime repeatedBlock t.txId =
          { blockNumber := filtered.number, seconds := secondsOf e.channelHeader.timestamp } := by
  obtain ⟨hsearch, hunread, hdecode, hfilter⟩ := times_agree repeatedBlock
  have hclosed : ∀ e : Entry, ¬ e.Open [255] := fun e ho => by
    have hmalformed : Entry.ofBytes? [255] = .error (.malformed "envelope") := by decide
    cases hmalformed.symm.trans (Entry.ofBytes?_eq_ok_iff.2 ho)
  have hfirst : transactionTime repeatedBlock "s" = { blockNumber := 4, seconds := 5 } := by
    have hopened : (repeatedBlock.entries[1]?.bind fun entry => (Entry.ofBytes? entry).toOption).map (·.channelHeader) =
        some { txId := "s", timestamp := some { seconds := 5 } } := by decide +kernel
    obtain ⟨e, he, hheader⟩ := Option.map_eq_some_iff.1 hopened
    have hnone : NoneBefore repeatedBlock "s" 1 := noneBefore_iff.2 (by decide +kernel)
    have hseconds := (hsearch "s").2.1 1 e ⟨opensAt_iff.2 he, congrArg (·.txId) hheader, hnone⟩
    rw [hheader] at hseconds
    rw [TransactionTime.mk.injEq]
    exact ⟨(hsearch "s").1, hseconds⟩
  have hnone : NoneBefore repeatedBlock "t" 3 := noneBefore_iff.2 (by decide +kernel)
  obtain ⟨full, hfull⟩ := decode_of_header (b := repeatedBlock) rfl
  obtain ⟨filtered, hfiltered⟩ := filter_of_header (b := repeatedBlock) rfl
  refine ⟨hfirst, hunread [] [255] _ rfl hclosed "s", full, filtered, hfull, hfiltered, ?_, ?_⟩
  · have hshown : (decode repeatedBlock).toOption.map (fun f => f.transactions.map fun t => (t.index, t.header.txId)) =
        some [(3, "t")] := by decide +kernel
    rw [hfull] at hshown
    obtain ⟨t, ht, hparts⟩ := List.map_eq_singleton_iff.1 (Option.some.inj hshown)
    obtain ⟨hindex, htx⟩ := Prod.mk.inj hparts
    have hmem : t ∈ full.transactions := ht ▸ List.mem_singleton_self t
    exact ⟨t, hmem, hdecode full hfull t hmem (by rw [hindex, htx]; exact hnone)⟩
  · have hshown : (filter repeatedBlock).toOption.map (fun f => f.transactions.map fun t => (t.index, t.txId)) =
        some [(3, "t")] := by decide +kernel
    rw [hfiltered] at hshown
    obtain ⟨t, ht, hparts⟩ := List.map_eq_singleton_iff.1 (Option.some.inj hshown)
    obtain ⟨hindex, htx⟩ := Prod.mk.inj hparts
    have hmem : t ∈ filtered.transactions := ht ▸ List.mem_singleton_self t
    obtain ⟨e, hopens, -, htime⟩ := hfilter filtered hfiltered t hmem (by rw [hindex, htx]; exact hnone)
    exact ⟨t, hmem, e, hopens, htime⟩

end LedgerClient.Block
