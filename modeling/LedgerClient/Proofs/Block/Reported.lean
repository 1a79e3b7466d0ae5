/-
What a peer reports of a block is shown as it is.

A peer that filters a block itself reports an identifier and a code for each
transaction. All of them are shown, in order, and what the peer does not report
stays empty (`Filtered.Shows`); nothing else could be shown of the same report
(`eq_ofPeerFiltered_iff`). The code a peer sends has thirty-two bits and the one
shown has eight. One that does not fit is shown as the code for other reasons,
never cut off (`IsByteOf`), so that a transaction is shown as valid only if the
peer found it so.
-/
import LedgerClient.Block.Filter
import LedgerClient.Proofs.Protocol.Codes

namespace LedgerClient.Block

open Protocol

/-! ## Codes -/

/-- The byte that is shown for a code. -/
inductive IsByteOf : Int32 → UInt8 → Prop where
  | fits {c : Int32} {b : UInt8} (h : c.toInt = b.toNat) : IsByteOf c b
  | other {c : Int32} (h : c.toInt < 0 ∨ 255 < c.toInt) : IsByteOf c 255

variable {c : Int32} {b b' : UInt8}

theorem IsByteOf.unique (h : IsByteOf c b) (h' : IsByteOf c b') : b = b' := by
  cases h with
  | fits h =>
    cases h' with
    | fits h' => exact UInt8.toNat_inj.1 (by omega)
    | other h' =>
      have := b.toNat_lt
      omega
  | other h =>
    cases h' with
    | fits h' =>
      have := b'.toNat_lt
      omega
    | other _ => rfl

theorem IsByteOf.eq_zero_iff (h : IsByteOf c b) : b = 0 ↔ c = 0 := by
  rw [← UInt8.toNat_inj, ← Int32.toInt_inj]
  cases h with
  | fits h =>
    rw [h]
    exact Int.natCast_inj.symm
  | other h =>
    refine iff_of_false (by decide) fun h0 => ?_
    rw [h0] at h
    exact absurd h (by decide)

def byteOf (c : Int32) : UInt8 := if 0 ≤ c ∧ c ≤ 255 then c.toInt.toNat.toUInt8 else 255

theorem isByteOf_byteOf (c : Int32) : IsByteOf c (byteOf c) := by
  unfold byteOf
  split
  next h =>
    have h0 : 0 ≤ c.toInt := Int32.le_iff_toInt_le.1 h.1
    have h255 : c.toInt ≤ 255 := Int32.le_iff_toInt_le.1 h.2
    refine .fits ?_
    rw [UInt8.toNat_ofNat']
    omega
  next h =>
    refine .other ?_
    simp only [Int32.le_iff_toInt_le] at h
    have h0 : (0 : Int32).toInt = 0 := rfl
    have h255 : (255 : Int32).toInt = 255 := rfl
    omega

theorem isByteOf_iff : IsByteOf c b ↔ b = byteOf c :=
  ⟨fun h => h.unique (isByteOf_byteOf c), fun h => h ▸ isByteOf_byteOf c⟩

/-! ## Transactions -/

/-- A transaction of a peer's report is shown at a position: its identifier and its code, without accesses or a size. -/
structure FilteredTransaction.Shows (s : FilteredTransaction) (i : Nat) (t : Protocol.FilteredTransaction) : Prop where
  index : s.index = i
  txId : s.txId = t.txId
  code : IsByteOf t.validationCode s.validationCode
  name : s.validationName = ValidationCode.nameOfByte s.validationCode
  accesses : s.accesses = []
  size : s.size = 0

def shownOf (i : Nat) (t : Protocol.FilteredTransaction) : FilteredTransaction :=
  { index := i, txId := t.txId, validationCode := byteOf t.validationCode
    validationName := ValidationCode.nameOfByte (byteOf t.validationCode) }

theorem FilteredTransaction.shows_iff {s : FilteredTransaction} {i : Nat} {t : Protocol.FilteredTransaction} :
    s.Shows i t ↔ s = shownOf i t := by
  constructor
  · intro h
    obtain ⟨hindex, htxId, hcode, hname, haccesses, hsize⟩ := h
    have hcode := isByteOf_iff.1 hcode
    cases s
    simp_all [shownOf]
  · intro h
    subst h
    exact ⟨rfl, rfl, isByteOf_byteOf _, rfl, rfl, rfl⟩

/-! ## Blocks -/

/-- A peer's report is shown: each transaction at its own position, and nothing of what else a block has. -/
structure Filtered.Shows (f : Filtered) (r : Protocol.FilteredBlock) : Prop where
  number : f.number = r.number
  txCount : f.txCount = r.transactions.length
  length : f.transactions.length = r.transactions.length
  transactions : ∀ i (s : FilteredTransaction) t, f.transactions[i]? = some s → r.transactions[i]? = some t →
    s.Shows i t
  transactionFilter : f.transactionFilter = f.transactions.map (·.validationCode)
  blockHash : f.blockHash = []
  previousHash : f.previousHash = []
  dataHash : f.dataHash = []
  lastConfigBlock : f.lastConfigBlock = 0

variable {f : Filtered} {r : Protocol.FilteredBlock} {i : Nat}

theorem transactions_ofPeerFiltered : (ofPeerFiltered r).transactions = r.transactions.mapIdx shownOf := rfl

theorem transactionFilter_ofPeerFiltered :
    (ofPeerFiltered r).transactionFilter = r.transactions.map fun t => byteOf t.validationCode := rfl

theorem shows_ofPeerFiltered (r : Protocol.FilteredBlock) : (ofPeerFiltered r).Shows r where
  number := rfl
  txCount := rfl
  length := by rw [transactions_ofPeerFiltered, List.length_mapIdx]
  transactions i s t hs ht := by
    rw [transactions_ofPeerFiltered, List.getElem?_mapIdx, ht] at hs
    exact FilteredTransaction.shows_iff.2 (Option.some.inj hs).symm
  transactionFilter := by
    refine List.ext_getElem? fun i => ?_
    rw [transactionFilter_ofPeerFiltered, transactions_ofPeerFiltered, List.getElem?_map, List.getElem?_map,
      List.getElem?_mapIdx, Option.map_map]
    rfl
  blockHash := rfl
  previousHash := rfl
  dataHash := rfl
  lastConfigBlock := rfl

theorem Filtered.Shows.transactions_eq (h : f.Shows r) : f.transactions = r.transactions.mapIdx shownOf := by
  refine List.ext_getElem (by rw [List.length_mapIdx, h.length]) fun i hf hr => ?_
  rw [List.length_mapIdx] at hr
  rw [List.getElem_mapIdx]
  exact FilteredTransaction.shows_iff.1
    (h.transactions i _ _ (List.getElem?_eq_getElem hf) (List.getElem?_eq_getElem hr))

/-- A report determines all that is shown of it. -/
theorem eq_ofPeerFiltered_iff : f = ofPeerFiltered r ↔ f.Shows r := by
  constructor
  · intro h
    rw [h]
    exact shows_ofPeerFiltered r
  · intro h
    have htransactions : f.transactions = (ofPeerFiltered r).transactions := h.transactions_eq
    have hfilter : f.transactionFilter = (ofPeerFiltered r).transactionFilter := by
      rw [h.transactionFilter, htransactions, (shows_ofPeerFiltered r).transactionFilter]
    obtain ⟨hnumber, htxCount, -, -, -, hblockHash, hpreviousHash, hdataHash, hlastConfigBlock⟩ := h
    cases f
    rw [Filtered.mk.injEq]
    exact ⟨htxCount, hnumber, hblockHash, hpreviousHash, hlastConfigBlock, hdataHash, hfilter, htransactions⟩

/-! ## Validity -/

/-- The peer found the transaction at a position valid. -/
def ReportsValid (r : Protocol.FilteredBlock) (i : Nat) : Prop :=
  ∃ t, r.transactions[i]? = some t ∧ t.validationCode = ValidationCode.valid.code

theorem byteOf_eq_zero_iff : byteOf c = 0 ↔ c = 0 := (isByteOf_byteOf c).eq_zero_iff

theorem exists_transactions_ofPeerFiltered_iff {p : FilteredTransaction → Prop} :
    (∃ s, (ofPeerFiltered r).transactions[i]? = some s ∧ p s) ↔
      ∃ t, r.transactions[i]? = some t ∧ p (shownOf i t) := by
  simp only [transactions_ofPeerFiltered, List.getElem?_mapIdx, Option.map_eq_some_iff]
  constructor
  · intro ⟨s, ⟨t, ht, hs⟩, hp⟩
    exact ⟨t, ht, hs ▸ hp⟩
  · intro ⟨t, ht, hp⟩
    exact ⟨shownOf i t, ⟨t, ht, rfl⟩, hp⟩

/-- **A report of a peer is shown as it is.** The number of the block and each transaction with its identifier, in
order and at its own position, and nothing that the peer does not send: this and only this is shown. A code is shown
as it is if it fits a byte and as the one for other reasons if not. So a transaction is shown as valid, be it by its
code, its name or the codes of the whole block, exactly if the peer found it valid. -/
theorem report_shown_exactly (r : Protocol.FilteredBlock) :
    (∀ f, f = ofPeerFiltered r ↔ f.Shows r) ∧
    ∀ i, ((ofPeerFiltered r).transactionFilter[i]? = some 0 ↔ ReportsValid r i) ∧
      ((∃ s, (ofPeerFiltered r).transactions[i]? = some s ∧ s.validationCode = 0) ↔ ReportsValid r i) ∧
      ((∃ s, (ofPeerFiltered r).transactions[i]? = some s ∧ s.validationName = ValidationCode.valid.name) ↔
        ReportsValid r i) := by
  refine ⟨fun f => eq_ofPeerFiltered_iff, fun i => ⟨?_, ?_, ?_⟩⟩
  · simp only [transactionFilter_ofPeerFiltered, List.getElem?_map, Option.map_eq_some_iff, byteOf_eq_zero_iff]
    rfl
  · simp only [exists_transactions_ofPeerFiltered_iff, shownOf, byteOf_eq_zero_iff]
    rfl
  · simp only [exists_transactions_ofPeerFiltered_iff, shownOf, ValidationCode.nameOfByte_eq_valid_iff,
      byteOf_eq_zero_iff]
    rfl

/-- Codes around both ends of a byte; 256 has zeros in its last eight bits. -/
example : (ofPeerFiltered
    { transactions := [0, 11, 255, 256, -1].map fun c => { validationCode := c } }).transactionFilter =
      [0, 11, 255, 255, 255] := by decide

end LedgerClient.Block
