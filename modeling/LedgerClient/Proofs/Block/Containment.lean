/-
One bad entry does not spoil a block.

Whatever its entries and metadata are, a block with a header is shown by both
views. They count and code all entries, shown or not, so that what is said of a
transaction is said at its own position; and what is shown of one entry does
not depend on any other.
-/
import LedgerClient.Proofs.Block.Views

namespace LedgerClient.Block

open Protocol

variable {b b' : Protocol.Block} {header : BlockHeader} {n i j : Nat}

/-! ## Validation codes -/

theorem length_validationCodes : (validationCodes b n).length = n := by
  simp only [validationCodes, List.length_append, List.length_replicate, List.length_take]
  omega

theorem getElem?_validationCodes (hi : i < n) :
    (validationCodes b n)[i]? = some (((slotBytes? b .transactionsFilter).bind (·[i]?)).getD notValidated) := by
  have hslot : (slotBytes? b .transactionsFilter).bind (·[i]?) =
      ((slotBytes? b .transactionsFilter).getD [])[i]? := by
    cases slotBytes? b .transactionsFilter <;> rfl
  rw [hslot, validationCodes]
  generalize (slotBytes? b .transactionsFilter).getD [] = slot
  by_cases hlt : i < slot.length
  · rw [List.getElem?_append_left (by rw [List.length_take]; omega), List.getElem?_take_of_lt hi,
      List.getElem?_eq_getElem hlt, Option.getD_some]
  · rw [List.getElem?_append_right (by rw [List.length_take]; omega), List.getElem?_replicate,
      if_pos (by rw [List.length_take]; omega), List.getElem?_eq_none (Nat.le_of_not_lt hlt), Option.getD_none]

/-! ## Where transactions stand -/

/-- Where a view says that a transaction stands, with the code and the size it gives it. -/
structure Placement where
  index : Nat
  code : UInt8
  size : Nat
  deriving DecidableEq, Repr

def Transaction.placement (t : Transaction) : Placement := ⟨t.index, t.validationCode, t.size⟩

def FilteredTransaction.placement (t : FilteredTransaction) : Placement := ⟨t.index, t.validationCode, t.size⟩

/-- A view counts and codes the entries of a block, and places transactions at entries of theirs. -/
structure Aligned (b : Protocol.Block) (count : Nat) (codes : Bytes) (placements : List Placement) : Prop where
  count_eq : count = b.entries.length
  length_codes : codes.length = count
  code : ∀ i, i < count →
    codes[i]? = some (((b.metadata.bind fun m => m.slots[2]?).bind fun slot => slot[i]?).getD 254)
  increasing : placements.Pairwise fun p q => p.index < q.index
  placed : ∀ p ∈ placements, p.index < count ∧ codes[p.index]? = some p.code ∧
    ∃ entry, b.entries[p.index]? = some entry ∧ p.size = entry.length

section

variable {τ : Type} {place : τ → Placement} {f : Bytes → Nat → Bytes → Option τ}
  (hf : ∀ codes i entry t, f codes i entry = some t → place t = ⟨i, codes.getD i notValidated, entry.length⟩)
include hf

theorem aligned_collect {s : Summary} (hs : s = summary b header) :
    Aligned b s.txCount s.transactionFilter
      ((collect (f (validationCodes b b.entries.length)) b.entries).map place) := by
  subst hs
  refine ⟨rfl, length_validationCodes, fun i hi => getElem?_validationCodes hi, ?_, fun p hp => ?_⟩
  · rw [List.pairwise_map]
    exact pairwise_collect fun i entry t h => by rw [hf _ i entry t h]
  · obtain ⟨t, ht, rfl⟩ := List.mem_map.1 hp
    obtain ⟨i, entry, hentry, h⟩ := mem_collect.1 ht
    have hi : i < b.entries.length := (List.getElem?_eq_some_iff.1 hentry).1
    have hcode : (validationCodes b b.entries.length)[i]? =
        some ((validationCodes b b.entries.length).getD i notValidated) := by
      rw [List.getD_eq_getElem?_getD, getElem?_validationCodes hi, Option.getD_some]
    rw [hf _ i entry t h]
    exact ⟨hi, hcode, entry, hentry, rfl⟩

end

theorem placement_of_shown? {codes : Bytes} {entry : Bytes} {t : Transaction}
    (h : shown? codes i entry = some t) : t.placement = ⟨i, codes.getD i notValidated, entry.length⟩ := by
  obtain ⟨_, _, _, _, -, -, -, -, rfl⟩ := shown?_eq_some_iff.1 h
  rfl

theorem placement_of_filtered? {codes : Bytes} {entry : Bytes} {t : FilteredTransaction}
    (h : filtered? codes i entry = some t) : t.placement = ⟨i, codes.getD i notValidated, entry.length⟩ := by
  obtain ⟨_, _, _, -, rfl⟩ := filtered?_eq_some_iff.1 h
  rfl

theorem aligned_of_decode {full : Full} (hh : b.header = some header) (h : decode b = .ok full) :
    Aligned b full.txCount full.transactionFilter (full.transactions.map (·.placement)) := by
  rw [transactions_of_decode h]
  exact aligned_collect (fun _ _ _ _ => placement_of_shown?) (summary_of_decode hh h)

theorem aligned_of_filter {filtered : Filtered} (hh : b.header = some header) (h : filter b = .ok filtered) :
    Aligned b filtered.txCount filtered.transactionFilter (filtered.transactions.map (·.placement)) := by
  rw [transactions_of_filter h]
  exact aligned_collect (fun _ _ _ _ => placement_of_filtered?) (summary_of_filter hh h)

/-! ## Blocks that differ in one entry -/

/-- Two blocks have the same header and metadata, and the same entries except at `j`. -/
structure DiffersAt (j : Nat) (b b' : Protocol.Block) : Prop where
  header : b.header = b'.header
  metadata : b.metadata = b'.metadata
  length_entries : b.entries.length = b'.entries.length
  entry : ∀ i, i ≠ j → b.entries[i]? = b'.entries[i]?

theorem DiffersAt.validationCodes (h : DiffersAt j b b') :
    validationCodes b b.entries.length = validationCodes b' b'.entries.length := by
  simp only [Block.validationCodes, slotBytes?, h.metadata, h.length_entries]

theorem DiffersAt.transactions_of_decode (h : DiffersAt j b b') {full full' : Full} (hfull : decode b = .ok full)
    (hfull' : decode b' = .ok full') :
    full.transactions.filter (fun t => t.index ≠ j) = full'.transactions.filter (fun t => t.index ≠ j) := by
  rw [Block.transactions_of_decode hfull, Block.transactions_of_decode hfull', h.validationCodes]
  exact filter_collect_congr (fun _ _ _ ht => congrArg Placement.index (placement_of_shown? ht)) h.length_entries
    h.entry

theorem DiffersAt.transactions_of_filter (h : DiffersAt j b b') {filtered filtered' : Filtered}
    (hfiltered : filter b = .ok filtered) (hfiltered' : filter b' = .ok filtered') :
    filtered.transactions.filter (fun t => t.index ≠ j) = filtered'.transactions.filter (fun t => t.index ≠ j) := by
  rw [Block.transactions_of_filter hfiltered, Block.transactions_of_filter hfiltered', h.validationCodes]
  exact filter_collect_congr (fun _ _ _ ht => congrArg Placement.index (placement_of_filtered? ht))
    h.length_entries h.entry

/-- **One bad entry does not spoil a block.** Both views of a block with a header are made, whatever is in
its entries and metadata, and what they say of an entry stands at its position. Replacing one entry
changes nothing that is shown of the others. -/
theorem failures_contained (hheader : b.header ≠ none) :
    ∃ full filtered, decode b = .ok full ∧ filter b = .ok filtered ∧
      Aligned b full.txCount full.transactionFilter (full.transactions.map (·.placement)) ∧
      Aligned b filtered.txCount filtered.transactionFilter (filtered.transactions.map (·.placement)) ∧
      ∀ j b', DiffersAt j b b' → ∃ full' filtered', decode b' = .ok full' ∧ filter b' = .ok filtered' ∧
        full.transactions.filter (fun t => t.index ≠ j) = full'.transactions.filter (fun t => t.index ≠ j) ∧
        filtered.transactions.filter (fun t => t.index ≠ j) =
          filtered'.transactions.filter (fun t => t.index ≠ j) := by
  obtain ⟨header, hh⟩ := Option.ne_none_iff_exists'.1 hheader
  obtain ⟨full, hfull⟩ := decode_of_header hh
  obtain ⟨filtered, hfiltered⟩ := filter_of_header hh
  refine ⟨full, filtered, hfull, hfiltered, aligned_of_decode hh hfull, aligned_of_filter hh hfiltered,
    fun j b' h => ?_⟩
  obtain ⟨full', hfull'⟩ := decode_of_header (h.header ▸ hh)
  obtain ⟨filtered', hfiltered'⟩ := filter_of_header (h.header ▸ hh)
  exact ⟨full', filtered', hfull', hfiltered', h.transactions_of_decode hfull hfull',
    h.transactions_of_filter hfiltered hfiltered'⟩

/-- The first and the last entry of `mixedBlock` are shown alike when the one between them is a call. -/
theorem failures_contained_mixed :
    ∃ full filtered, decode mixedBlock = .ok full ∧ filter mixedBlock = .ok filtered ∧
      filtered.txCount = 3 ∧ (filtered.transactions.map (·.placement)).map (·.index) = [0, 2] ∧
      ∃ full' filtered',
        decode { mixedBlock with data := some { entries := [callEntry [], callEntry [], callEntry [255]] } } =
          .ok full' ∧
        filter { mixedBlock with data := some { entries := [callEntry [], callEntry [], callEntry [255]] } } =
          .ok filtered' ∧
        full.transactions.filter (fun t => t.index ≠ 1) = full'.transactions.filter (fun t => t.index ≠ 1) ∧
        filtered.transactions.filter (fun t => t.index ≠ 1) =
          filtered'.transactions.filter (fun t => t.index ≠ 1) := by
  have hheader : mixedBlock.header ≠ none := by decide
  obtain ⟨full, filtered, hfull, hfiltered, -, haligned, h⟩ := failures_contained hheader
  have hdiffers : DiffersAt 1 mixedBlock
      { mixedBlock with data := some { entries := [callEntry [], callEntry [], callEntry [255]] } } := by
    refine ⟨rfl, rfl, rfl, fun i hi => ?_⟩
    match i with
    | 0 => rfl
    | 1 => exact absurd rfl hi
    | _ + 2 => rfl
  refine ⟨full, filtered, hfull, hfiltered, haligned.count_eq, ?_, h 1 _ hdiffers⟩
  have hshown : (filter mixedBlock).toOption.map (fun f => (f.transactions.map (·.placement)).map (·.index)) =
      some [0, 2] := by decide +kernel
  rw [hfiltered] at hshown
  exact Option.some.inj hshown

end LedgerClient.Block
