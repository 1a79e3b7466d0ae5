/-
What an entry has to hold for either view to show it.

Both views open an entry the same way as far as its channel header, and a
chaincode call as far as its accesses. The filtered view looks no further. The
full view goes on to the signers, the arguments and the event, and leaves the
entry out if one of these cannot be read; `Flaw` lists where that may be.
-/
import LedgerClient.Block.Filter
import LedgerClient.Proofs.Block.Gathered
import LedgerClient.Proofs.Envelope

namespace LedgerClient.Block

open Protocol

variable {codes : Bytes} {i : Nat} {entry : Bytes} {e : Entry} {a : EndorsedAction}
  {sets : List NamespaceAccess}

/-! ## The filtered view -/

/-- An entry is a chaincode call with the accesses that its simulation lists. -/
structure IsCall (entry : Bytes) (e : Entry) (a : EndorsedAction) (sets : List NamespaceAccess) : Prop where
  opened : Entry.ofBytes? entry = .ok e
  type : HeaderType.ofCode? e.channelHeader.type = some .endorserTransaction
  endorsed : EndorsedAction.ofBytes? e.payload.data = .ok a
  accesses : accesses a.chaincodeAction.results = .ok sets

/-- How the filtered view shows a call. -/
def FilteredTransaction.ofCall (codes : Bytes) (i : Nat) (entry : Bytes) (e : Entry)
    (sets : List NamespaceAccess) : FilteredTransaction :=
  { index := i, accesses := sets, txId := e.channelHeader.txId
    validationCode := codes.getD i notValidated
    validationName := ValidationCode.nameOfByte (codes.getD i notValidated)
    size := entry.length }

theorem filtered?_eq_some_iff {t : FilteredTransaction} :
    filtered? codes i entry = some t ↔ ∃ e a sets, IsCall entry e a sets ∧ t = .ofCall codes i entry e sets := by
  constructor
  · intro h
    simp only [filtered?, entryAccesses, Option.bind_eq_bind, Option.bind_eq_some_iff, toOption_eq_some_iff] at h
    obtain ⟨e, he, h⟩ := h
    split at h
    · cases h
    next htype =>
      obtain ⟨sets, h, ht⟩ := Option.bind_eq_some_iff.1 h
      obtain ⟨a, ha, hsets⟩ := exists_of_bind_eq_ok (eq_ok_of_toOption h)
      exact ⟨e, a, sets, ⟨he, Decidable.of_not_not htype, ha, hsets⟩, (Option.some.inj ht).symm⟩
  · rintro ⟨e, a, sets, hc, rfl⟩
    simp only [filtered?, hc.opened, hc.type, entryAccesses, hc.endorsed, hc.accesses, Except.toOption, bind,
      Except.bind, Option.bind]
    rfl

/-! ## The full view -/

theorem shown?_eq_some_iff {t : Transaction} :
    shown? codes i entry = some t ↔ ∃ e x s bd, Entry.ofBytes? entry = .ok e ∧
      Wire.decode? ChaincodeHeaderExtension e.channelHeader.extension = some x ∧
      Wire.decode? SignatureHeader e.header.signatureHeader = some s ∧ body e (.ofHeader s) = .ok (some bd) ∧
      t = { index := i, size := entry.length, body := bd, signer := .ofHeader s
            signature := e.envelope.signature
            header := .of e.channelHeader x.chaincodeId
            validationCode := codes.getD i notValidated
            validationName := ValidationCode.nameOfByte (codes.getD i notValidated) } := by
  simp only [shown?, transaction, Option.bind_eq_bind, Option.bind_eq_some_iff, Option.join_eq_some_iff,
    toOption_eq_some_iff, bind_eq_ok_iff, decodeAs_eq_ok_iff]
  constructor
  · rintro ⟨e, he, x, hx, s, hs, bd?, hbd, h⟩
    obtain ⟨bd, rfl, rfl⟩ := Option.map_eq_some_iff.1 (Except.ok.inj h)
    exact ⟨e, x, s, bd, he, hx, hs, hbd, rfl⟩
  · rintro ⟨e, x, s, bd, he, hx, hs, hbd, rfl⟩
    exact ⟨e, he, x, hx, s, hs, some bd, hbd, rfl⟩

theorem index_of_shown? {t : Transaction} (h : shown? codes i entry = some t) : t.index = i := by
  obtain ⟨_, _, _, _, -, -, -, -, rfl⟩ := shown?_eq_some_iff.1 h
  rfl

/-- What the full view reads of a call besides its accesses. -/
structure Legible (a : EndorsedAction) : Prop where
  header : ∃ h, Wire.decode? SignatureHeader a.action.header = some h
  spec : ∃ p i s, Wire.decode? ChaincodeProposalPayload a.actionPayload.proposalPayload = some p ∧
    Wire.decode? ChaincodeInvocationSpec p.input = some i ∧ i.spec = some s
  event : a.chaincodeAction.events ≠ [] → ∃ v, Wire.decode? ChaincodeEvent a.chaincodeAction.events = some v

instance : Decidable (Legible a) :=
  decidable_of_iff
    ((Wire.decode? SignatureHeader a.action.header).isSome ∧
      ((Wire.decode? ChaincodeProposalPayload a.actionPayload.proposalPayload).bind fun p =>
        (Wire.decode? ChaincodeInvocationSpec p.input).bind (·.spec)).isSome ∧
      (a.chaincodeAction.events ≠ [] → (Wire.decode? ChaincodeEvent a.chaincodeAction.events).isSome)) <| by
    simp only [Option.isSome_iff_exists, Option.bind_eq_some_iff]
    constructor
    · rintro ⟨hh, ⟨s, p, hp, i, hi, hs⟩, hevent⟩
      exact ⟨hh, ⟨p, i, s, hp, hi, hs⟩, hevent⟩
    · rintro ⟨hh, ⟨p, i, s, hp, hi, hs⟩, hevent⟩
      exact ⟨hh, ⟨s, p, hp, i, hi, hs⟩, hevent⟩

theorem endorserTransaction_eq_ok_iff {data : Bytes} :
    (∃ tx, endorserTransaction data = .ok tx ∧ tx.accesses = sets) ↔
      ∃ a, EndorsedAction.ofBytes? data = .ok a ∧ accesses a.chaincodeAction.results = .ok sets ∧ Legible a := by
  constructor
  · rintro ⟨tx, htx, rfl⟩
    simp only [endorserTransaction, bind_eq_ok_iff, decodeAs_eq_ok_iff, require_eq_ok_iff] at htx
    obtain ⟨a, ha, h, hh, p, hp, i, hi, s, hs, htx⟩ := htx
    split at htx
    next hempty =>
      obtain ⟨_, -, htx⟩ := exists_of_bind_eq_ok htx
      obtain ⟨sets, hsets, htx⟩ := exists_of_bind_eq_ok htx
      cases htx
      exact ⟨a, ha, hsets, ⟨h, hh⟩, ⟨p, i, s, hp, hi, hs⟩, fun hne => absurd (List.isEmpty_iff.1 hempty) hne⟩
    next =>
      obtain ⟨_, hevent, htx⟩ := exists_of_bind_eq_ok htx
      obtain ⟨v, hv, -⟩ := map_eq_ok_iff.1 hevent
      obtain ⟨sets, hsets, htx⟩ := exists_of_bind_eq_ok htx
      cases htx
      exact ⟨a, ha, hsets, ⟨h, hh⟩, ⟨p, i, s, hp, hi, hs⟩, fun _ => ⟨v, decodeAs_eq_ok_iff.1 hv⟩⟩
  · rintro ⟨a, ha, hsets, ⟨h, hh⟩, ⟨p, i, s, hp, hi, hs⟩, hevent⟩
    simp only [endorserTransaction, ha, decodeAs_eq_ok_iff.2 hh, decodeAs_eq_ok_iff.2 hp,
      decodeAs_eq_ok_iff.2 hi, require_eq_ok_iff.2 hs, hsets, bind, Except.bind]
    split
    next => exact ⟨_, rfl, rfl⟩
    next hempty =>
      obtain ⟨v, hv⟩ := hevent (by simpa using hempty)
      rw [decodeAs_eq_ok_iff.2 hv]
      exact ⟨_, rfl, rfl⟩

/-- A body is a call where the entry's type says so. -/
theorem body_eq_endorser_iff {s : Signer} {tx : EndorserTransaction} :
    body e s = .ok (some (.endorser tx)) ↔
      HeaderType.ofCode? e.channelHeader.type = some .endorserTransaction ∧
        endorserTransaction e.payload.data = .ok tx := by
  unfold body
  split
  next htype => simp [htype, map_eq_ok_iff]
  next htype => simp [htype, map_eq_ok_iff]
  next htype _ => simpa [pure, Except.pure] using fun h => absurd h htype

/-- What keeps the full view from showing a call that the filtered view shows. -/
inductive Flaw (e : Entry) (a : EndorsedAction) : Prop
  | extension (h : Wire.decode? ChaincodeHeaderExtension e.channelHeader.extension = none)
  | signatureHeader (h : Wire.decode? SignatureHeader e.header.signatureHeader = none)
  | actionHeader (h : Wire.decode? SignatureHeader a.action.header = none)
  | proposalPayload (h : Wire.decode? ChaincodeProposalPayload a.actionPayload.proposalPayload = none)
  | invocation {p : ChaincodeProposalPayload}
      (hp : Wire.decode? ChaincodeProposalPayload a.actionPayload.proposalPayload = some p)
      (h : Wire.decode? ChaincodeInvocationSpec p.input = none)
  | spec {p : ChaincodeProposalPayload} {i : ChaincodeInvocationSpec}
      (hp : Wire.decode? ChaincodeProposalPayload a.actionPayload.proposalPayload = some p)
      (hi : Wire.decode? ChaincodeInvocationSpec p.input = some i) (h : i.spec = none)
  | event (hne : a.chaincodeAction.events ≠ [])
      (h : Wire.decode? ChaincodeEvent a.chaincodeAction.events = none)

theorem not_flaw_iff : ¬ Flaw e a ↔
    (∃ x, Wire.decode? ChaincodeHeaderExtension e.channelHeader.extension = some x) ∧
      (∃ s, Wire.decode? SignatureHeader e.header.signatureHeader = some s) ∧ Legible a := by
  constructor
  · intro h
    have hspec : ∃ p i s, Wire.decode? ChaincodeProposalPayload a.actionPayload.proposalPayload = some p ∧
        Wire.decode? ChaincodeInvocationSpec p.input = some i ∧ i.spec = some s := by
      obtain ⟨p, hp⟩ := Option.ne_none_iff_exists'.1 (h ∘ .proposalPayload)
      obtain ⟨i, hi⟩ := Option.ne_none_iff_exists'.1 (h ∘ .invocation hp)
      obtain ⟨s, hs⟩ := Option.ne_none_iff_exists'.1 (h ∘ .spec hp hi)
      exact ⟨p, i, s, hp, hi, hs⟩
    exact ⟨Option.ne_none_iff_exists'.1 (h ∘ .extension), Option.ne_none_iff_exists'.1 (h ∘ .signatureHeader),
      Option.ne_none_iff_exists'.1 (h ∘ .actionHeader), hspec,
      fun hne => Option.ne_none_iff_exists'.1 (h ∘ .event hne)⟩
  · rintro ⟨⟨x, hx⟩, ⟨s, hs⟩, ⟨h, hh⟩, ⟨p, i, s, hp, hi, hspec⟩, hevent⟩ hflaw
    cases hflaw with
    | extension h => simp [hx] at h
    | signatureHeader h => simp [hs] at h
    | actionHeader h => simp [hh] at h
    | proposalPayload h => simp [hp] at h
    | invocation hp' h =>
      cases hp.symm.trans hp'
      simp [hi] at h
    | spec hp' hi' h =>
      cases hp.symm.trans hp'
      cases hi.symm.trans hi'
      simp [hspec] at h
    | event hne h =>
      obtain ⟨v, hv⟩ := hevent hne
      simp [hv] at h

instance : Decidable (Flaw e a) :=
  decidable_of_iff
    (¬ ((Wire.decode? ChaincodeHeaderExtension e.channelHeader.extension).isSome ∧
      (Wire.decode? SignatureHeader e.header.signatureHeader).isSome ∧ Legible a)) <| by
    rw [Option.isSome_iff_exists, Option.isSome_iff_exists]
    exact (not_congr not_flaw_iff).symm.trans Classical.not_not

/-- How the filtered view shows a transaction of the full view, if it is a call. -/
def Transaction.filtered? (t : Transaction) : Option FilteredTransaction :=
  t.endorser?.map fun tx =>
    { index := t.index, accesses := tx.accesses, txId := t.header.txId
      validationCode := t.validationCode, validationName := t.validationName, size := t.size }

theorem shown?_filtered?_eq_some_iff {t : FilteredTransaction} :
    (shown? codes i entry).bind Transaction.filtered? = some t ↔
      ∃ e a sets, IsCall entry e a sets ∧ ¬ Flaw e a ∧ t = .ofCall codes i entry e sets := by
  simp only [Option.bind_eq_some_iff, shown?_eq_some_iff]
  constructor
  · rintro ⟨_, ⟨e, x, s, bd, he, hx, hs, hbd, rfl⟩, ht⟩
    cases bd with
    | config tx => cases ht
    | endorser tx =>
      obtain ⟨htype, htx⟩ := body_eq_endorser_iff.1 hbd
      obtain ⟨a, ha, hsets, hlegible⟩ := endorserTransaction_eq_ok_iff.1 ⟨tx, htx, rfl⟩
      exact ⟨e, a, tx.accesses, ⟨he, htype, ha, hsets⟩, not_flaw_iff.2 ⟨⟨x, hx⟩, ⟨s, hs⟩, hlegible⟩,
        (Option.some.inj ht).symm⟩
  · rintro ⟨e, a, sets, hc, hflaw, rfl⟩
    obtain ⟨⟨x, hx⟩, ⟨s, hs⟩, hlegible⟩ := not_flaw_iff.1 hflaw
    obtain ⟨tx, htx, rfl⟩ := endorserTransaction_eq_ok_iff.2 ⟨a, hc.endorsed, hc.accesses, hlegible⟩
    exact ⟨_, ⟨e, x, s, .endorser tx, hc.opened, hx, hs, body_eq_endorser_iff.2 ⟨hc.type, htx⟩, rfl⟩, rfl⟩

/-! ## Whole blocks -/

variable {b : Protocol.Block} {header : BlockHeader} {full : Full} {filtered : Filtered}

theorem decode_of_header (hh : b.header = some header) : ∃ full, decode b = .ok full := by
  simp only [decode, hh, require]
  exact ⟨_, rfl⟩

theorem filter_of_header (hh : b.header = some header) : ∃ filtered, filter b = .ok filtered := by
  simp only [filter, hh, require]
  exact ⟨_, rfl⟩

theorem transactions_of_decode (h : decode b = .ok full) :
    full.transactions = collect (shown? (validationCodes b b.entries.length)) b.entries := by
  obtain ⟨header, -, h⟩ := exists_of_bind_eq_ok h
  cases h
  exact transactions_gather _ _

theorem transactions_of_filter (h : filter b = .ok filtered) :
    filtered.transactions = collect (filtered? (validationCodes b b.entries.length)) b.entries := by
  obtain ⟨header, -, h⟩ := exists_of_bind_eq_ok h
  cases h
  rfl

/-! ## The entries behind a view -/

/-- The entry of a block at an index can be taken apart as far as its channel header. -/
def OpensAt (b : Protocol.Block) (i : Nat) (e : Entry) : Prop := ∃ entry, b.entries[i]? = some entry ∧ e.Open entry

theorem opensAt_iff : OpensAt b i e ↔ (b.entries[i]?.bind fun entry => (Entry.ofBytes? entry).toOption) = some e := by
  simp only [OpensAt, Option.bind_eq_some_iff, Entry.toOption_ofBytes?_eq_some_iff]

/-- A transaction of the full view has the headers and the signer of the entry at its index. -/
theorem exists_opensAt_of_decode {t : Transaction} (h : decode b = .ok full) (ht : t ∈ full.transactions) :
    ∃ e x s, OpensAt b t.index e ∧ t.header = .of e.channelHeader x ∧
      Wire.decode? SignatureHeader e.header.signatureHeader = some s ∧ t.signer = .ofHeader s ∧
      body e t.signer = .ok (some t.body) := by
  rw [transactions_of_decode h] at ht
  obtain ⟨i, entry, hentry, hshown⟩ := mem_collect.1 ht
  obtain ⟨e, x, s, bd, he, -, hs, hbd, rfl⟩ := shown?_eq_some_iff.1 hshown
  exact ⟨e, x.chaincodeId, s, ⟨entry, hentry, Entry.ofBytes?_eq_ok_iff.1 he⟩, rfl, hs, rfl, hbd⟩

theorem exists_opensAt_of_filter {t : FilteredTransaction} (h : filter b = .ok filtered)
    (ht : t ∈ filtered.transactions) : ∃ e, OpensAt b t.index e ∧ t.txId = e.channelHeader.txId := by
  rw [transactions_of_filter h] at ht
  obtain ⟨i, entry, hentry, hfiltered⟩ := mem_collect.1 ht
  obtain ⟨e, _, _, hc, rfl⟩ := filtered?_eq_some_iff.1 hfiltered
  exact ⟨e, ⟨entry, hentry, Entry.ofBytes?_eq_ok_iff.1 hc.opened⟩, rfl⟩

end LedgerClient.Block
