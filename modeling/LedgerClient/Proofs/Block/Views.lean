/-
The two views of a block agree.

They fail on the same blocks, say the same about a block as a whole, and show
the same calls, but for those whose signers, arguments or event cannot be read:
these only the filtered view shows.
-/
import LedgerClient.Proofs.Block.Shown

namespace LedgerClient.Block

open Protocol

variable {b : Protocol.Block} {header : BlockHeader} {full : Full} {filtered : Filtered}

/-! ## The whole block -/

/-- What a view says about a block as a whole. -/
structure Summary where
  number : UInt64
  blockHash : Bytes
  previousHash : Bytes
  dataHash : Bytes
  lastConfigBlock : UInt64
  txCount : Nat
  transactionFilter : Bytes
  deriving DecidableEq, Repr

def Full.summary (full : Full) : Summary :=
  { number := full.number, blockHash := full.blockHash, previousHash := full.previousHash
    dataHash := full.dataHash, lastConfigBlock := full.lastConfig.blockNumber
    txCount := full.txCount, transactionFilter := full.transactionFilter }

def Filtered.summary (filtered : Filtered) : Summary :=
  { number := filtered.number, blockHash := filtered.blockHash, previousHash := filtered.previousHash
    dataHash := filtered.dataHash, lastConfigBlock := filtered.lastConfigBlock
    txCount := filtered.txCount, transactionFilter := filtered.transactionFilter }

/-- What both views say about a block with a header. -/
def summary (b : Protocol.Block) (header : BlockHeader) : Summary :=
  { number := header.number, blockHash := headerHash header, previousHash := header.previousHash
    dataHash := header.dataHash, lastConfigBlock := (lastConfigSlot b).blockNumber
    txCount := b.entries.length, transactionFilter := validationCodes b b.entries.length }

theorem summary_of_decode (hh : b.header = some header) (h : decode b = .ok full) :
    full.summary = summary b header := by
  simp only [decode, hh, require] at h
  cases h
  rfl

theorem summary_of_filter (hh : b.header = some header) (h : filter b = .ok filtered) :
    filtered.summary = summary b header := by
  simp only [filter, hh, require] at h
  cases h
  rfl

/-! ## The calls -/

/-- The calls of a full view, as a filtered view shows them. -/
def Full.calls (full : Full) : List FilteredTransaction := full.transactions.filterMap Transaction.filtered?

/-- The call at a position has a flaw, so that only the filtered view shows it. -/
def FlawedAt (b : Protocol.Block) (i : Nat) : Prop :=
  ∃ entry e a, b.entries[i]? = some entry ∧ Entry.ofBytes? entry = .ok e ∧
    EndorsedAction.ofBytes? e.payload.data = .ok a ∧ Flaw e a

instance (b : Protocol.Block) (i : Nat) : Decidable (FlawedAt b i) :=
  decidable_of_iff
    ((do
      let entry ← b.entries[i]?
      let e ← (Entry.ofBytes? entry).toOption
      let a ← (EndorsedAction.ofBytes? e.payload.data).toOption
      some (decide (Flaw e a))) = some true) <| by
    simp only [FlawedAt, Option.bind_eq_bind, Option.bind_eq_some_iff, toOption_eq_some_iff, Option.some.injEq,
      decide_eq_true_eq]
    constructor
    · rintro ⟨entry, hentry, e, he, a, ha, hflaw⟩
      exact ⟨entry, e, a, hentry, he, ha, hflaw⟩
    · rintro ⟨entry, e, a, hentry, he, ha, hflaw⟩
      exact ⟨entry, hentry, e, he, a, ha, hflaw⟩

variable {i : Nat} {entry : Bytes} {e : Entry} {a : EndorsedAction} {sets : List NamespaceAccess}

theorem flawedAt_iff (hentry : b.entries[i]? = some entry) (hc : IsCall entry e a sets) :
    FlawedAt b i ↔ Flaw e a := by
  constructor
  · rintro ⟨entry', e', a', hentry', he, ha, hflaw⟩
    cases hentry.symm.trans hentry'
    cases hc.opened.symm.trans he
    cases hc.endorsed.symm.trans ha
    exact hflaw
  · exact fun hflaw => ⟨entry, e, a, hentry, hc.opened, hc.endorsed, hflaw⟩

theorem calls_eq_filter (hfull : decode b = .ok full) (hfiltered : filter b = .ok filtered) :
    full.calls = filtered.transactions.filter fun t => ¬ FlawedAt b t.index := by
  rw [Full.calls, transactions_of_decode hfull, transactions_of_filter hfiltered, filterMap_collect, filter_collect]
  -- now both sides are collected from the same entries, and are compared at one of them
  refine collect_congr fun i => ?_
  cases hentry : b.entries[i]? with
  | none => rfl
  | some entry =>
    refine congrArg some (Option.ext fun t => ?_)
    simp only [shown?_filtered?_eq_some_iff, Option.filter_eq_some_iff, filtered?_eq_some_iff, decide_eq_true_eq]
    constructor
    · rintro ⟨e, a, sets, hc, hflaw, rfl⟩
      exact ⟨⟨e, a, sets, hc, rfl⟩, fun h => hflaw ((flawedAt_iff hentry hc).1 h)⟩
    · rintro ⟨⟨e, a, sets, hc, rfl⟩, h⟩
      exact ⟨e, a, sets, hc, fun hflaw => h ((flawedAt_iff hentry hc).2 hflaw), rfl⟩

/-- **The two views agree.** Of every block, either both views fail, for the same reason, or both are
made. Then they say the same about the whole block, and the calls of the full view are those of the
filtered view, in order, without the ones at which the full view finds a flaw. -/
theorem views_agree (b : Protocol.Block) :
    (∃ err, decode b = .error err ∧ filter b = .error err) ∨
      ∃ full filtered, decode b = .ok full ∧ filter b = .ok filtered ∧ full.summary = filtered.summary ∧
        full.calls.Sublist filtered.transactions ∧
        full.calls = filtered.transactions.filter fun t => ¬ FlawedAt b t.index := by
  cases hh : b.header with
  | none =>
    refine .inl ⟨.missing "block header", ?_, ?_⟩
    · simp only [decode, hh, require]
      rfl
    · simp only [filter, hh, require]
      rfl
  | some header =>
    obtain ⟨full, hfull⟩ := decode_of_header hh
    obtain ⟨filtered, hfiltered⟩ := filter_of_header hh
    have hcalls := calls_eq_filter hfull hfiltered
    refine .inr ⟨full, filtered, hfull, hfiltered, ?_, hcalls ▸ List.filter_sublist, hcalls⟩
    rw [summary_of_decode hh hfull, summary_of_filter hh hfiltered]

/-! A block of two calls, the second with an event that is none, and something else between them. -/

/-- An entry with a call that emits the given event. -/
def callEntry (event : Bytes) : Bytes :=
  let action : ChaincodeAction := { events := event, response := some {} }
  let response : ProposalResponsePayload := { extension := Wire.encode action }
  let invocation : ChaincodeInvocationSpec := { spec := some {} }
  let proposal : ChaincodeProposalPayload := { input := Wire.encode invocation }
  let payload : ChaincodeActionPayload :=
    { proposalPayload := Wire.encode proposal
      action := some { proposalResponsePayload := Wire.encode response } }
  let tx : Protocol.Transaction := { actions := [{ payload := Wire.encode payload }] }
  let header : ChannelHeader := { type := HeaderType.endorserTransaction.code, txId := "t" }
  let signed : Payload := { header := some { channelHeader := Wire.encode header }, data := Wire.encode tx }
  Wire.encode ({ payload := Wire.encode signed } : Envelope)

def mixedBlock : Protocol.Block :=
  { header := some {}, data := some { entries := [callEntry [], [255], callEntry [255]] } }

example : FlawedAt mixedBlock 2 ∧ ¬ FlawedAt mixedBlock 0 ∧
    (decode mixedBlock).toOption.map (fun full => full.calls.map (·.index)) = some [0] ∧
    (filter mixedBlock).toOption.map (fun filtered => filtered.transactions.map (·.index)) = some [0, 2] := by
  decide +kernel

end LedgerClient.Block
