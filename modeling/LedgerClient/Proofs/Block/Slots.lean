/-
Each metadata slot speaks for itself.

The full view takes from a slot one field, and from the slot of the validation
codes also what it says of each transaction's code. Blocks that differ in one
slot are therefore shown alike but for that (`decode_without`). A slot that is
missing or cannot be read leaves its own field empty or zero; where it is the
filter, every entry that it has no byte for is unvalidated. The block is shown
all the same.
-/
import LedgerClient.Proofs.Block.Containment

namespace LedgerClient.Block

open Protocol

variable {b b' : Protocol.Block} {header : BlockHeader} {full : Full} {k : Nat}

/-! ## Blocks that differ in one slot -/

/-- The bytes in the metadata slot at a position, if there are that many slots. -/
def slotAt? (b : Protocol.Block) (k : Nat) : Option Bytes := b.metadata.bind (·.slots[k]?)

/-- Two blocks have the same header and entries, and the same metadata except in the slot at `k`. -/
structure DiffersInSlot (k : Nat) (b b' : Protocol.Block) : Prop where
  header : b.header = b'.header
  data : b.data = b'.data
  slot : ∀ i, i ≠ k → slotAt? b i = slotAt? b' i

/-- A transaction without its validation code. -/
def Transaction.uncoded (t : Transaction) : Transaction := { t with validationCode := 0, validationName := "" }

/-- A view without its size and without what the metadata slot at `k` says. -/
def Full.without (k : Nat) (full : Full) : Full :=
  { full with
    size := 0
    creatorSignature := if k = 0 then none else full.creatorSignature
    lastConfig := if k = 1 then {} else full.lastConfig
    transactionFilter := if k = 2 then [] else full.transactionFilter
    transactions := if k = 2 then full.transactions.map (·.uncoded) else full.transactions
    ordererMetadata := if k = 3 then {} else full.ordererMetadata }

theorem slotBytes?_eq (s : Slot) : slotBytes? b s = slotAt? b s.index := rfl

theorem slot_congr {s : Slot} (h : slotAt? b s.index = slotAt? b' s.index) : slot b s = slot b' s := by
  simp only [slot, slotBytes?_eq, h]

theorem slotSignature?_congr {s : Slot} (h : slotAt? b s.index = slotAt? b' s.index) :
    slotSignature? b s = slotSignature? b' s := by
  simp only [slotSignature?, slot_congr h]

theorem lastConfigSlot_congr (h : slotAt? b 1 = slotAt? b' 1) : lastConfigSlot b = lastConfigSlot b' := by
  simp only [lastConfigSlot, slotSignature?_congr (s := .lastConfig) h, slot_congr (s := .lastConfig) h]

theorem ordererSlot_congr (h : slotAt? b 3 = slotAt? b' 3) : ordererSlot b = ordererSlot b' := by
  simp only [ordererSlot, slotSignature?_congr (s := .orderer) h, slot_congr (s := .orderer) h]

theorem validationCodes_congr {n : Nat} (h : slotAt? b 2 = slotAt? b' 2) :
    validationCodes b n = validationCodes b' n := by
  have hslot : slotBytes? b .transactionsFilter = slotBytes? b' .transactionsFilter := h
  simp only [validationCodes, hslot]

/-! ## What validation codes have no part in -/

/-- Which transactions are shown does not depend on the codes, nor anything else that is shown of them. -/
theorem map_uncoded_shown? (codes codes' : Bytes) (i : Nat) (entry : Bytes) :
    (shown? codes i entry).map (·.uncoded) = (shown? codes' i entry).map (·.uncoded) := by
  have hsub : ∀ {codes codes' : Bytes} {t : Transaction}, (shown? codes i entry).map (·.uncoded) = some t →
      (shown? codes' i entry).map (·.uncoded) = some t := by
    intro codes codes' t h
    obtain ⟨_, hshown, rfl⟩ := Option.map_eq_some_iff.1 h
    obtain ⟨e, x, s, bd, he, hx, hs, hbd, rfl⟩ := shown?_eq_some_iff.1 hshown
    rw [shown?_eq_some_iff.2 ⟨e, x, s, bd, he, hx, hs, hbd, rfl⟩]
    rfl
  exact Option.ext fun t => ⟨hsub, hsub⟩

/-- What is gathered, with the transactions without their validation codes. -/
def Gathered.uncoded (g : Gathered) : Gathered := { g with transactions := g.transactions.map (·.uncoded) }

/-- One more entry tells gatherings with other codes apart in nothing but the code of its transaction. -/
theorem Gathered.uncoded_add {g g' : Gathered} (h : g.uncoded = g'.uncoded) (codes codes' : Bytes) (i : Nat)
    (entry : Bytes) : (g.add codes i entry).uncoded = (g'.add codes' i entry).uncoded := by
  have hshown := map_uncoded_shown? codes codes' i entry
  have hchannel (codes : Bytes) : (shown? codes i entry).map (·.header.channelId) =
      ((shown? codes i entry).map (·.uncoded)).map (·.header.channelId) := by
    rw [Option.map_map]
    rfl
  have hconfig (codes : Bytes) : (shown? codes i entry).bind (·.config?) =
      ((shown? codes i entry).map (·.uncoded)).bind (·.config?) := by
    rw [Option.bind_map]
    rfl
  simp only [uncoded, mk.injEq] at h
  obtain ⟨htransactions, hchannelId, htime, hconfig'⟩ := h
  simp only [uncoded, transactions_add, channelId_add, config_add, firstTxTime_add, List.map_append,
    ← Option.toList_map, hchannel, hconfig, hshown, htransactions, hchannelId, htime, hconfig']

theorem uncoded_gather (codes codes' : Bytes) (entries : List Bytes) :
    (gather codes entries).uncoded = (gather codes' entries).uncoded := by
  induction entries using List.reverseRecOn with
  | nil => rfl
  | append_singleton entries entry ih =>
    rw [gather_concat, gather_concat]
    exact Gathered.uncoded_add ih codes codes' _ entry

/-- Blocks that differ in one slot are shown alike, but for what this slot says. -/
theorem decode_without (h : DiffersInSlot k b b') :
    (decode b).map (Full.without k) = (decode b').map (Full.without k) := by
  cases hh : b.header with
  | none => simp only [decode, hh, ← h.header, require, bind, Except.bind]
  | some header =>
    have hentries : b.entries = b'.entries := by rw [Protocol.Block.entries, h.data, Protocol.Block.entries]
    let codes := validationCodes b b'.entries.length
    let codes' := validationCodes b' b'.entries.length
    have hcodes : k ≠ 2 → codes = codes' := fun hk => validationCodes_congr (h.slot 2 hk.symm)
    have huncoded := uncoded_gather codes codes' b'.entries
    simp only [Gathered.uncoded, Gathered.mk.injEq] at huncoded
    obtain ⟨htransactions, hchannel, htime, hconfig⟩ := huncoded
    simp only [decode, hh, ← h.header, hentries, require, bind, Except.bind]
    refine congrArg Except.ok ?_
    simp only [Full.without, Full.mk.injEq]
    refine ⟨trivial, trivial, trivial, trivial, hchannel, trivial, ?_, ?_, ?_, ?_, ?_, htime, trivial, hconfig⟩
    · exact ite_congr rfl (fun _ => htransactions) fun hk =>
        congrArg (fun codes => (gather codes b'.entries).transactions) (hcodes hk)
    · exact ite_congr rfl (fun _ => rfl) fun hk => slotSignature?_congr (h.slot 0 (Ne.symm hk))
    · exact ite_congr rfl (fun _ => rfl) fun hk => lastConfigSlot_congr (h.slot 1 (Ne.symm hk))
    · exact ite_congr rfl (fun _ => rfl) hcodes
    · exact ite_congr rfl (fun _ => rfl) fun hk => ordererSlot_congr (h.slot 3 (Ne.symm hk))

/-! ## Slots that are missing or cannot be read -/

/-- What the metadata slot at a position holds, if it is there and can be read. -/
def metadataAt? (b : Protocol.Block) (k : Nat) : Option Metadata := (slotAt? b k).bind (Wire.decode? Metadata)

/-- The header of the first signature over a slot cannot be read. -/
def SignatureUnread (m : Metadata) : Prop :=
  ∃ first, m.signatures.head? = some first ∧ Wire.decode? SignatureHeader first.signatureHeader = none

theorem toOption_slot (s : Slot) : (slot b s).toOption = metadataAt? b s.index := by
  simp only [slot, slotBytes?_eq, metadataAt?]
  cases slotAt? b s.index with
  | none => rfl
  | some bytes =>
    simp only [require, decodeAs, bind, Except.bind, Option.bind_some]
    cases Wire.decode? Metadata bytes <;> rfl

theorem slotSignature?_of_unread {s : Slot} (h : metadataAt? b s.index = none) : slotSignature? b s = none := by
  rw [slotSignature?, toOption_slot, h]
  rfl

theorem slotSignature?_of_signatureUnread {s : Slot} {m : Metadata} (h : metadataAt? b s.index = some m)
    (hm : SignatureUnread m) : slotSignature? b s = none := by
  obtain ⟨first, hfirst, hheader⟩ := hm
  simp only [slotSignature?, toOption_slot, h, hfirst, hheader, bind, Option.bind]

/-- What a full view makes of slots that are missing or cannot be read, in whole or in part. -/
structure Lenient (b : Protocol.Block) (full : Full) : Prop where
  signatures_unread : metadataAt? b 0 = none → full.creatorSignature = none
  lastConfig_unread : metadataAt? b 1 = none → full.lastConfig = { blockNumber := 0, signature := none }
  orderer_unread : metadataAt? b 3 = none → full.ordererMetadata = { lastOffsetPersisted := 0, signature := none }
  /-- Without the filter no entry counts as validated. -/
  filter_missing : slotAt? b 2 = none →
    full.transactionFilter = List.replicate full.txCount 254 ∧ ∀ t ∈ full.transactions, t.validationCode = 254
  /-- Nor do the entries behind its end. -/
  filter_short : ∀ codes, slotAt? b 2 = some codes → codes.length ≤ full.txCount →
    full.transactionFilter = codes ++ List.replicate (full.txCount - codes.length) 254 ∧
      ∀ t ∈ full.transactions, codes.length ≤ t.index → t.validationCode = 254
  signatures_unsigned : ∀ m, metadataAt? b 0 = some m → SignatureUnread m → full.creatorSignature = none
  lastConfig_unsigned : ∀ m, metadataAt? b 1 = some m → SignatureUnread m → full.lastConfig.signature = none
  orderer_unsigned : ∀ m, metadataAt? b 3 = some m → SignatureUnread m → full.ordererMetadata.signature = none
  /-- The value does not depend on the signatures over it. -/
  lastConfig_value : ∀ m, metadataAt? b 1 = some m →
    (∀ c, Wire.decode? LastConfig m.value = some c → full.lastConfig.blockNumber = c.index) ∧
      (Wire.decode? LastConfig m.value = none → full.lastConfig.blockNumber = 0)
  orderer_value : ∀ m, metadataAt? b 3 = some m →
    (∀ o, Wire.decode? KafkaMetadata m.value = some o →
      full.ordererMetadata.lastOffsetPersisted = swapBytes o.lastOffsetPersisted.toUInt64) ∧
      (Wire.decode? KafkaMetadata m.value = none → full.ordererMetadata.lastOffsetPersisted = 0)

theorem validationCodes_of_missing {n : Nat} (h : slotAt? b 2 = none) :
    validationCodes b n = List.replicate n 254 := by
  have hslot : slotBytes? b .transactionsFilter = none := h
  simp only [validationCodes, hslot, Option.getD_none, List.take_nil, List.nil_append, List.length_nil, Nat.sub_zero]
  rfl

theorem validationCodes_of_short {n : Nat} {codes : Bytes} (h : slotAt? b 2 = some codes) (hn : codes.length ≤ n) :
    validationCodes b n = codes ++ List.replicate (n - codes.length) 254 := by
  have hslot : slotBytes? b .transactionsFilter = some codes := h
  simp only [validationCodes, hslot, Option.getD_some, List.take_of_length_le hn]
  rfl

theorem lastConfigSlot_of_unread (h : metadataAt? b 1 = none) : lastConfigSlot b = {} := by
  simp only [lastConfigSlot, toOption_slot, slotSignature?_of_unread (s := .lastConfig) h]
  rw [show metadataAt? b Slot.lastConfig.index = none from h]
  rfl

theorem ordererSlot_of_unread (h : metadataAt? b 3 = none) : ordererSlot b = {} := by
  simp only [ordererSlot, toOption_slot, slotSignature?_of_unread (s := .orderer) h]
  rw [show metadataAt? b Slot.orderer.index = none from h]
  rfl

theorem blockNumber_lastConfigSlot {m : Metadata} (h : metadataAt? b 1 = some m) :
    (lastConfigSlot b).blockNumber = ((Wire.decode? LastConfig m.value).map (·.index)).getD 0 := by
  simp only [lastConfigSlot, toOption_slot]
  rw [show metadataAt? b Slot.lastConfig.index = some m from h, Option.bind_some]

theorem lastOffsetPersisted_ordererSlot {m : Metadata} (h : metadataAt? b 3 = some m) :
    (ordererSlot b).lastOffsetPersisted =
      ((Wire.decode? KafkaMetadata m.value).map fun o => swapBytes o.lastOffsetPersisted.toUInt64).getD 0 := by
  simp only [ordererSlot, toOption_slot]
  rw [show metadataAt? b Slot.orderer.index = some m from h, Option.bind_some]

/-- A transaction for which the filter has no byte. -/
theorem validationCode_of_uncovered {n i : Nat} {entry : Bytes} {t : Transaction}
    (h : (slotAt? b 2).bind (·[i]?) = none) (ht : shown? (validationCodes b n) i entry = some t) :
    t.validationCode = 254 := by
  have hcode : t.validationCode = (validationCodes b n).getD i notValidated :=
    congrArg Placement.code (placement_of_shown? ht)
  rw [hcode, List.getD_eq_getElem?_getD]
  by_cases hi : i < n
  · have hslot : (slotBytes? b .transactionsFilter).bind (·[i]?) = none := h
    rw [getElem?_validationCodes hi, hslot]
    rfl
  · rw [List.getElem?_eq_none (by rw [length_validationCodes]; omega)]
    rfl

theorem lenient_of_decode (hh : b.header = some header) (h : decode b = .ok full) : Lenient b full := by
  have htransactions := transactions_of_decode h
  simp only [decode, hh, require] at h
  cases h
  exact {
    signatures_unread := fun h => slotSignature?_of_unread (s := .signatures) h
    lastConfig_unread := lastConfigSlot_of_unread
    orderer_unread := ordererSlot_of_unread
    filter_missing := fun h => by
      refine ⟨validationCodes_of_missing h, fun t ht => ?_⟩
      obtain ⟨i, entry, -, hshown⟩ := mem_collect.1 (htransactions ▸ ht)
      exact validationCode_of_uncovered (by rw [h, Option.bind_none]) hshown
    filter_short := fun codes h hlength => by
      refine ⟨validationCodes_of_short h hlength, fun t ht hbehind => ?_⟩
      obtain ⟨i, entry, -, hshown⟩ := mem_collect.1 (htransactions ▸ ht)
      have hindex : t.index = i := congrArg Placement.index (placement_of_shown? hshown)
      refine validationCode_of_uncovered ?_ hshown
      rw [h, Option.bind_some, List.getElem?_eq_none (by omega)]
    signatures_unsigned := fun m h => slotSignature?_of_signatureUnread (s := .signatures) h
    lastConfig_unsigned := fun m h => slotSignature?_of_signatureUnread (s := .lastConfig) h
    orderer_unsigned := fun m h => slotSignature?_of_signatureUnread (s := .orderer) h
    lastConfig_value := fun m h => by
      have hvalue := blockNumber_lastConfigSlot h
      exact ⟨fun c hc => by rw [hvalue, hc]; rfl, fun hc => by rw [hvalue, hc]; rfl⟩
    orderer_value := fun m h => by
      have hvalue := lastOffsetPersisted_ordererSlot h
      exact ⟨fun o ho => by rw [hvalue, ho]; rfl, fun ho => by rw [hvalue, ho]; rfl⟩ }

/-- **Each slot speaks for itself.** Blocks that differ in one metadata slot are both refused or both
shown, and then alike but for their size and what that slot says: the creator's signature, the last
configuration, the validation codes or the orderer's metadata. Every block with a header is shown. A slot
that is missing or cannot be read gives an empty or zero value; only where the filter is missing or too
short, each entry without a byte has the code of one that no peer has validated. A slot whose signature
cannot be read keeps its value. -/
theorem slots_apart :
    (∀ k b b', DiffersInSlot k b b' → (decode b).map (Full.without k) = (decode b').map (Full.without k)) ∧
    ∀ b : Protocol.Block, b.header ≠ none → ∃ full, decode b = .ok full ∧ Lenient b full := by
  refine ⟨fun k b b' h => decode_without h, fun b hheader => ?_⟩
  obtain ⟨header, hh⟩ := Option.ne_none_iff_exists'.1 hheader
  obtain ⟨full, hfull⟩ := decode_of_header hh
  exact ⟨full, hfull, lenient_of_decode hh hfull⟩

/-! A block whose first slot is malformed, whose filter has no byte for the last of three entries, and whose last slot
has a value under a malformed signature, with one slot left open. -/

def slottedBlock (lastConfig : Bytes) : Protocol.Block :=
  let offset : KafkaMetadata := { lastOffsetPersisted := 1 }
  let orderer : Metadata := { value := Wire.encode offset, signatures := [{ signatureHeader := [255] }] }
  { mixedBlock with metadata := some { slots := [[255], lastConfig, [0, 11], Wire.encode orderer] } }

theorem slots_apart_slotted :
    let readable := Wire.encode ({ value := Wire.encode ({ index := 7 } : LastConfig) } : Metadata)
    (decode (slottedBlock [255])).map (Full.without 1) = (decode (slottedBlock readable)).map (Full.without 1) ∧
      ∃ full, decode (slottedBlock [255]) = .ok full ∧ full.creatorSignature = none ∧ full.lastConfig = {} ∧
        full.transactionFilter = [0, 11, 254] ∧
        full.ordererMetadata = { lastOffsetPersisted := 0x100000000000000, signature := none } := by
  intro readable
  obtain ⟨hsame, hlenient⟩ := slots_apart
  have hdiffers : DiffersInSlot 1 (slottedBlock [255]) (slottedBlock readable) := by
    refine ⟨rfl, rfl, fun i hi => ?_⟩
    match i with
    | 0 => rfl
    | 1 => exact absurd rfl hi
    | _ + 2 => rfl
  obtain ⟨full, hfull, h⟩ := hlenient (slottedBlock [255]) (by decide)
  let offset : KafkaMetadata := { lastOffsetPersisted := 1 }
  let orderer : Metadata := { value := Wire.encode offset, signatures := [{ signatureHeader := [255] }] }
  have horderer : metadataAt? (slottedBlock [255]) 3 = some orderer := by decide +kernel
  have hvalue : Wire.decode? KafkaMetadata orderer.value = some offset := by decide +kernel
  have hsignatureUnread : SignatureUnread orderer := ⟨_, rfl, by decide +kernel⟩
  have hcount : full.txCount = 3 := (aligned_of_decode rfl hfull).count_eq
  have hfilter := (h.filter_short [0, 11] rfl (by rw [hcount]; decide)).1
  rw [hcount] at hfilter
  refine ⟨hsame _ _ _ hdiffers, full, hfull, h.signatures_unread (by decide +kernel),
    h.lastConfig_unread (by decide +kernel), hfilter, ?_⟩
  have hoffset : full.ordererMetadata.lastOffsetPersisted = 0x100000000000000 :=
    ((h.orderer_value _ horderer).1 _ hvalue).trans (by decide +kernel)
  rw [← hoffset, ← h.orderer_unsigned _ horderer hsignatureUnread]

/-- A missing filter is not shown as an empty one, nor as one of zeros. -/
theorem missing_filter_is_not_zero :
    let b : Protocol.Block := { header := some {}, data := some { entries := [[255]] } }
    slotAt? b 2 = none ∧
      ∃ full, decode b = .ok full ∧ full.transactionFilter ≠ [] ∧ full.transactionFilter ≠ [0] := by
  intro b
  have hmissing : slotAt? b 2 = none := rfl
  obtain ⟨full, hfull⟩ := decode_of_header (b := b) rfl
  have hfilter := ((lenient_of_decode rfl hfull).filter_missing hmissing).1
  have hcount : full.txCount = 1 := (aligned_of_decode rfl hfull).count_eq
  rw [hcount] at hfilter
  refine ⟨hmissing, full, hfull, ?_, ?_⟩ <;> rw [hfilter] <;> decide

end LedgerClient.Block
