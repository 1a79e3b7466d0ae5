/-
Which block holds the configuration in force, asked in two ways.

The views of a block show what the slot of the last configuration names, and
zero where it names nothing (`OwnConfig.blockNumber_eq`,
`exists_ownConfig_of_blockNumber_ne_zero`). The search asks the value that the
orderers signed first and turns to that slot only where this value is empty
(`lastConfigIndex_eq_ok_iff`). There it finds what the views show, or fails
where they show zero because nothing can be read.
-/
import LedgerClient.Proofs.Block.Slots

namespace LedgerClient.Block

open Protocol

variable {b b' : Protocol.Block} {s : Slot} {m : Metadata} {c : LastConfig} {n : UInt64}

/-! ## Where it is named -/

/-- The orderers signed a value, and it names the last configuration. -/
def SignedConfig (b : Protocol.Block) (c : LastConfig) : Prop :=
  ∃ m signed, metadataAt? b 0 = some m ∧ m.value ≠ [] ∧
    Wire.decode? OrdererBlockMetadata m.value = some signed ∧ signed.lastConfig = some c

/-- What the orderers signed is empty. -/
def SignedNothing (b : Protocol.Block) : Prop := ∃ m, metadataAt? b 0 = some m ∧ m.value = []

/-- The slot of the last configuration names it. -/
def OwnConfig (b : Protocol.Block) (c : LastConfig) : Prop :=
  ∃ m, metadataAt? b 1 = some m ∧ Wire.decode? LastConfig m.value = some c

/-! ## What the views show -/

theorem OwnConfig.blockNumber_eq (h : OwnConfig b c) : (lastConfigSlot b).blockNumber = c.index := by
  obtain ⟨m, hm, hc⟩ := h
  rw [blockNumber_lastConfigSlot hm, hc]
  rfl

theorem exists_ownConfig_of_blockNumber_ne_zero (h : (lastConfigSlot b).blockNumber ≠ 0) : ∃ c, OwnConfig b c := by
  cases hm : metadataAt? b 1 with
  | none =>
    rw [lastConfigSlot_of_unread hm] at h
    exact absurd rfl h
  | some m =>
    rw [blockNumber_lastConfigSlot hm] at h
    cases hc : Wire.decode? LastConfig m.value with
    | none =>
      rw [hc] at h
      exact absurd rfl h
    | some c => exact ⟨c, m, hm, hc⟩

/-! ## What the search finds -/

theorem slot_eq_ok_iff : slot b s = .ok m ↔ metadataAt? b s.index = some m := by
  rw [← toOption_slot, toOption_eq_some_iff]

theorem lastConfigIndex_eq_ok_iff :
    lastConfigIndex b = .ok n ↔ ∃ c, c.index = n ∧ (SignedConfig b c ∨ SignedNothing b ∧ OwnConfig b c) := by
  rw [lastConfigIndex, bind_eq_ok_iff]
  constructor
  · rintro ⟨m, hm, h⟩
    have hm := slot_eq_ok_iff.1 hm
    split at h
    next hempty =>
      obtain ⟨own, hown, h⟩ := bind_eq_ok_iff.1 h
      obtain ⟨c, hc, h⟩ := bind_eq_ok_iff.1 h
      exact ⟨c, Except.ok.inj h, .inr ⟨⟨m, hm, List.isEmpty_iff.1 hempty⟩, own, slot_eq_ok_iff.1 hown,
        decodeAs_eq_ok_iff.1 hc⟩⟩
    next hempty =>
      obtain ⟨signed, hsigned, h⟩ := bind_eq_ok_iff.1 h
      obtain ⟨c, hc, h⟩ := bind_eq_ok_iff.1 h
      exact ⟨c, Except.ok.inj h, .inl ⟨m, signed, hm, fun he => hempty (List.isEmpty_iff.2 he),
        decodeAs_eq_ok_iff.1 hsigned, require_eq_ok_iff.1 hc⟩⟩
  · rintro ⟨c, rfl, ⟨m, signed, hm, hne, hsigned, hc⟩ | ⟨⟨m, hm, hempty⟩, own, hown, hc⟩⟩
    · refine ⟨m, slot_eq_ok_iff.2 hm, ?_⟩
      rw [if_neg fun he => hne (List.isEmpty_iff.1 he)]
      exact bind_eq_ok_iff.2 ⟨signed, decodeAs_eq_ok_iff.2 hsigned, bind_eq_ok_iff.2 ⟨c, require_eq_ok_iff.2 hc, rfl⟩⟩
    · refine ⟨m, slot_eq_ok_iff.2 hm, ?_⟩
      rw [if_pos (List.isEmpty_iff.2 hempty)]
      exact bind_eq_ok_iff.2 ⟨own, slot_eq_ok_iff.2 hown, bind_eq_ok_iff.2 ⟨c, decodeAs_eq_ok_iff.2 hc, rfl⟩⟩

/-- With a value that the orderers signed, the search looks at no other slot. -/
theorem lastConfigIndex_congr (hm : metadataAt? b 0 = some m) (hne : m.value ≠ []) (h : slotAt? b' 0 = slotAt? b 0) :
    lastConfigIndex b' = lastConfigIndex b := by
  have hslot : slot b .signatures = .ok m := slot_eq_ok_iff.2 hm
  have hslot' : slot b' .signatures = .ok m := (slot_congr h).trans hslot
  have hfilled : ¬ m.value.isEmpty = true := fun he => hne (List.isEmpty_iff.1 he)
  simp only [lastConfigIndex, hslot, hslot', bind, Except.bind, if_neg hfilled]

/-- **Both ways agree.** The search succeeds exactly if the orderers signed a value that names the last configuration, or
signed an empty one and the slot of its own names it. Where the signed value is not empty, nothing else in the block makes
a difference to it. Where it is, the search finds the number that both views show, and it finds any number but zero that
they show. -/
theorem last_configs_agree (b : Protocol.Block) :
    (∀ n, lastConfigIndex b = .ok n ↔
      ∃ c, c.index = n ∧ (SignedConfig b c ∨ SignedNothing b ∧ OwnConfig b c)) ∧
    (∀ m, metadataAt? b 0 = some m → m.value ≠ [] →
      ∀ b', slotAt? b' 0 = slotAt? b 0 → lastConfigIndex b' = lastConfigIndex b) ∧
    (∀ full, decode b = .ok full → full.lastConfig.blockNumber = (lastConfigSlot b).blockNumber) ∧
    (∀ filtered, filter b = .ok filtered → filtered.lastConfigBlock = (lastConfigSlot b).blockNumber) ∧
    (SignedNothing b →
      (∀ c, OwnConfig b c → lastConfigIndex b = .ok c.index ∧ (lastConfigSlot b).blockNumber = c.index) ∧
      ((lastConfigSlot b).blockNumber ≠ 0 → lastConfigIndex b = .ok (lastConfigSlot b).blockNumber)) := by
  have hown : SignedNothing b → ∀ c, OwnConfig b c → lastConfigIndex b = .ok c.index := fun hempty c hc =>
    lastConfigIndex_eq_ok_iff.2 ⟨c, rfl, .inr ⟨hempty, hc⟩⟩
  refine ⟨fun n => lastConfigIndex_eq_ok_iff, fun m hm hne b' h => lastConfigIndex_congr hm hne h, fun full h => ?_,
    fun filtered h => ?_, fun hempty => ⟨fun c hc => ⟨hown hempty c hc, hc.blockNumber_eq⟩, fun hne => ?_⟩⟩
  · obtain ⟨header, hheader, h⟩ := exists_of_bind_eq_ok h
    cases h
    rfl
  · obtain ⟨header, hheader, h⟩ := exists_of_bind_eq_ok h
    cases h
    rfl
  · obtain ⟨c, hc⟩ := exists_ownConfig_of_blockNumber_ne_zero hne
    rw [hc.blockNumber_eq, hown hempty c hc]

/-! A block whose orderers signed another number than stands in the slot, and one whose orderers signed none. -/

/-- A block with a value under the orderers' signatures and number 4 in the slot of the last configuration. -/
def configuredBlock (signed : Bytes) : Protocol.Block :=
  let own : Metadata := { value := Wire.encode ({ index := 4 } : LastConfig) }
  { header := some {}
    metadata := some { slots := [Wire.encode ({ value := signed } : Metadata), Wire.encode own] } }

theorem last_configs_agree_signed :
    let signed := configuredBlock (Wire.encode ({ lastConfig := some { index := 9 } } : OrdererBlockMetadata))
    lastConfigIndex signed = .ok 9 ∧
      lastConfigIndex { signed with metadata := signed.metadata.map fun m => { m with slots := m.slots.take 1 } } = .ok 9 ∧
      lastConfigIndex (configuredBlock []) = .ok 4 ∧
      ∃ full, decode (configuredBlock []) = .ok full ∧ full.lastConfig.blockNumber = 4 := by
  intro signed
  obtain ⟨hfound, hsame, -⟩ := last_configs_agree signed
  let m : Metadata := { value := Wire.encode ({ lastConfig := some { index := 9 } } : OrdererBlockMetadata) }
  have hm : metadataAt? signed 0 = some m := by decide +kernel
  have hne : m.value ≠ [] := by decide +kernel
  have hnames : SignedConfig signed { index := 9 } :=
    ⟨m, { lastConfig := some { index := 9 } }, hm, hne, by decide +kernel, rfl⟩
  have hindex : lastConfigIndex signed = .ok 9 := (hfound 9).2 ⟨_, rfl, .inl hnames⟩
  obtain ⟨-, -, hview, -, hempty⟩ := last_configs_agree (configuredBlock [])
  have hown : OwnConfig (configuredBlock []) { index := 4 } :=
    ⟨{ value := Wire.encode ({ index := 4 } : LastConfig) }, by decide +kernel, by decide +kernel⟩
  obtain ⟨hindex', hnumber⟩ := (hempty ⟨{}, by decide +kernel, rfl⟩).1 _ hown
  obtain ⟨full, hfull⟩ := decode_of_header (b := configuredBlock []) rfl
  exact ⟨hindex, (hsame m hm hne _ rfl).trans hindex, hindex', full, hfull, (hview full hfull).trans hnumber⟩

end LedgerClient.Block
