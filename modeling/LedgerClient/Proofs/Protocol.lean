/-
Structures of the protocol that are read back from what they are written as:
a proposal, the envelope of a transaction, a chaincode definition, and all that
is inside them.

A map of byte strings has to stand by rising key, as a reader leaves it; from
any other order a reader makes this one (`decode?_encode_proposalPayload`).
-/
import LedgerClient.Protocol.ChannelConfig
import LedgerClient.Protocol.Deliver
import LedgerClient.Protocol.Lifecycle
import LedgerClient.Protocol.Membership
import LedgerClient.Protocol.Proposal
import LedgerClient.Protocol.SignaturePolicy
import LedgerClient.Proofs.Wire.Typed

namespace LedgerClient.Protocol

open Wire Wire.Message

/-! ## Envelopes -/

theorem Timestamp.faithful (t : Timestamp) : Faithful 0 t :=
  ((Segment.scalar rfl).upTo.append (.scalar rfl) rfl).faithful rfl (by simp [Typed.ofMessage])

theorem Envelope.faithful (e : Envelope) : Faithful 0 e :=
  ((Segment.scalar rfl).upTo.append (.scalar rfl) rfl).faithful rfl (by simp [Typed.ofMessage])

theorem Header.faithful (h : Header) : Faithful 0 h :=
  ((Segment.scalar rfl).upTo.append (.scalar rfl) rfl).faithful rfl (by simp [Typed.ofMessage])

theorem Payload.faithful (p : Payload) : Faithful 1 p := by
  have hc : ∀ y, p.header = some y → Faithful 0 y := fun y _ => y.faithful
  refine ((Segment.child rfl hc).upTo.append (.scalar rfl) rfl).faithful rfl ?_
  simp only [Typed.ofMessage]
  simp [typed_self hc]

theorem ChannelHeader.faithful (h : ChannelHeader) : Faithful 1 h := by
  have hc : ∀ y, h.timestamp = some y → Faithful 0 y := fun y _ => y.faithful
  refine ((Segment.scalar rfl).upTo.append (.scalar rfl) rfl
    |>.append (.child rfl hc) rfl |>.append (.scalar rfl) rfl |>.append (.scalar rfl) rfl
    |>.append (.scalar rfl) rfl |>.append (.scalar rfl) rfl |>.append (.scalar rfl) rfl).faithful rfl ?_
  simp only [Typed.ofMessage]
  simp [typed_self hc]

theorem SignatureHeader.faithful (h : SignatureHeader) : Faithful 0 h :=
  ((Segment.scalar rfl).upTo.append (.scalar rfl) rfl).faithful rfl (by simp [Typed.ofMessage])

theorem SerializedIdentity.faithful (i : SerializedIdentity) : Faithful 0 i :=
  ((Segment.scalar rfl).upTo.append (.scalar rfl) rfl).faithful rfl (by simp [Typed.ofMessage])

/-! Besides the texts and bytes in them, twenty bytes a field are enough. -/

theorem Timestamp.size_le (t : Timestamp) : Wire.size t ≤ 40 := by
  have h1 := size_ofScalar_le 1 (.int64 t.seconds)
  have h2 := size_ofScalar_le 2 (.int32 t.nanos)
  simp only [Wire.size, Typed.toMessage, size_append, ofInt64, ofInt32, Scalar.content, List.length_nil] at *
  omega

theorem Header.size_le (h : Header) : Wire.size h ≤ h.channelHeader.length + h.signatureHeader.length + 40 := by
  have h1 := size_ofBytes_le 1 h.channelHeader
  have h2 := size_ofBytes_le 2 h.signatureHeader
  simp only [Wire.size, Typed.toMessage, size_append] at *
  omega

theorem Payload.size_le {p : Payload} {h : Header} (hp : p.header = some h) :
    Wire.size p ≤ Wire.size h + p.data.length + 40 := by
  have h1 := size_ofTyped?_some_le 1 h
  have h2 := size_ofBytes_le 2 p.data
  simp only [Wire.size, Typed.toMessage, size_append, hp] at *
  omega

theorem ChannelHeader.size_le (h : ChannelHeader) : Wire.size h ≤ (Utf8.encode h.channelId).length +
    (Utf8.encode h.txId).length + h.extension.length + h.tlsCertHash.length + 200 := by
  have h1 := size_ofScalar_le 1 (.int32 h.type)
  have h2 := size_ofScalar_le 2 (.int32 h.version)
  have h3 : size (ofTyped? 3 h.timestamp) ≤ 60 := by
    cases h.timestamp with
    | none => exact Nat.zero_le _
    | some t => exact Nat.le_trans (size_ofTyped?_some_le 3 t) (Nat.add_le_add_right t.size_le 20)
  have h4 := size_ofScalar_le 4 (.text h.channelId)
  have h5 := size_ofScalar_le 5 (.text h.txId)
  have h6 := size_ofScalar_le 6 (.uint64 h.epoch)
  have h7 := size_ofBytes_le 7 h.extension
  have h8 := size_ofBytes_le 8 h.tlsCertHash
  simp only [Wire.size, Typed.toMessage, size_append, ofInt32, ofText, ofUInt64, Scalar.content,
    List.length_nil] at *
  omega

/-! ## Updates of a configuration -/

theorem ConfigSignature.faithful (s : ConfigSignature) : Faithful 0 s :=
  ((Segment.scalar rfl).upTo.append (.scalar rfl) rfl).faithful rfl (by simp [Typed.ofMessage])

theorem ConfigUpdateEnvelope.faithful (e : ConfigUpdateEnvelope) : Faithful 1 e := by
  have hc : ∀ y ∈ e.signatures, Faithful 0 y := fun y _ => y.faithful
  refine ((Segment.scalar rfl).upTo.append (.children rfl hc) rfl).faithful rfl ?_
  simp only [Typed.ofMessage]
  simp [allTyped_self hc]

theorem ConfigSignature.size_le (s : ConfigSignature) :
    Wire.size s ≤ s.signatureHeader.length + s.signature.length + 40 := by
  have h1 := size_ofBytes_le 1 s.signatureHeader
  have h2 := size_ofBytes_le 2 s.signature
  simp only [Wire.size, Typed.toMessage, size_append] at *
  omega

/-! ## Principals -/

theorem MspRole.faithful (r : MspRole) : Faithful 0 r :=
  ((Segment.scalar rfl).upTo.append (.scalar rfl) rfl).faithful rfl (by simp [Typed.ofMessage])

theorem MspRole.size_le (r : MspRole) : Wire.size r ≤ (Utf8.encode r.mspId).length + 40 := by
  have h1 := size_ofScalar_le 1 (.text r.mspId)
  have h2 := size_ofScalar_le 2 (.int32 r.role)
  simp only [Wire.size, Typed.toMessage, size_append, ofText, ofInt32, Scalar.content, List.length_nil] at *
  omega

theorem MspPrincipal.faithful (p : MspPrincipal) : Faithful 0 p :=
  ((Segment.scalar rfl).upTo.append (.scalar rfl) rfl).faithful rfl (by simp [Typed.ofMessage])

/-! ## Policies -/

namespace SignaturePolicy

mutual
/-- A rule is a canonical message, however deep it is. -/
theorem canonical_toFields : ∀ r : SignaturePolicy, Canonical (.type .signaturePolicy) (toFields r)
  | .unset => Fits.nil
  | .signedBy i => by
    have hf : (Field.scalar 1 (.int32 i)).Fits (· < ·) (.type .signaturePolicy) :=
      Field.fits_scalar.2 ⟨_, rfl, rfl, rfl⟩
    exact (Segment.field hf (Nat.le_refl _)).canonical
  | .nOutOf n rules => by
    have hr : Segment (rulesToFields rules) (.type .nOutOf) (Field.nestingAll (rulesToFields rules)) 2 :=
      .repeated rfl rfl fun f hf =>
        ⟨(fits_of_mem_rulesToFields rules f hf).1, (fits_of_mem_rulesToFields rules f hf).2,
          Field.nestingAll_le_iff.1 (Nat.le_refl _) f hf⟩
    have hf : (Field.message 2 (ofInt32 1 n ++ rulesToFields rules)).Fits (· < ·) (.type .signaturePolicy) :=
      Field.fits_message.2 ⟨_, _, rfl, rfl, ((Segment.scalar rfl).upTo.append hr rfl).canonical, nofun⟩
    exact (Segment.field hf (Nat.le_refl _)).canonical

theorem fits_of_mem_rulesToFields : ∀ (rules : List SignaturePolicy), ∀ f ∈ rulesToFields rules,
    f.tag = 2 ∧ f.Fits (· < ·) (.type .nOutOf)
  | [] => nofun
  | r :: rs => by
    refine List.forall_mem_cons.2 ⟨⟨rfl, ?_⟩, fits_of_mem_rulesToFields rs⟩
    exact Field.fits_message.2 ⟨_, _, rfl, rfl, canonical_toFields r, nofun⟩
end

/-- The count in front of the rules is none of them. -/
theorem rulesOfFields_ofInt32_append (n : Int32) (fs : List Field) :
    rulesOfFields (ofInt32 1 n ++ fs) = rulesOfFields fs := by
  rw [ofInt32, ofScalar]
  split
  next => rfl
  next => simp [rulesOfFields]

mutual
theorem ofFields_toFields : ∀ r : SignaturePolicy, ofFields (toFields r) = r
  | .unset => by simp [toFields, ofFields]
  | .signedBy i => by simp [toFields, ofFields]
  | .nOutOf n rules => by
    have hr : find? (rulesToFields rules) 1 = none :=
      find?_eq_none (fun f hf => (fits_of_mem_rulesToFields rules f hf).1) (by decide)
    rw [toFields, ofFields, rulesOfFields_ofInt32_append, rulesOfFields_rulesToFields]
    simp [hr]

theorem rulesOfFields_rulesToFields : ∀ rules : List SignaturePolicy, rulesOfFields (rulesToFields rules) = rules
  | [] => by simp [rulesToFields, rulesOfFields]
  | r :: rs => by rw [rulesToFields, rulesOfFields, ofFields_toFields, rulesOfFields_rulesToFields]
end

theorem faithful (r : SignaturePolicy) : Faithful (Typed.toMessage r).nesting r :=
  ⟨canonical_toFields r, Nat.le_refl _, ofFields_toFields r⟩

end SignaturePolicy

theorem SignaturePolicyEnvelope.faithful {depth : Nat} {e : SignaturePolicyEnvelope}
    (hr : ∀ r, e.rule = some r → Faithful depth r) : Faithful (depth + 1) e := by
  have hp : ∀ y ∈ e.identities, Faithful depth y := fun y _ => y.faithful.mono (Nat.zero_le _)
  refine ((Segment.scalar rfl).upTo.append (.child rfl hr) rfl |>.append (.children rfl hp) rfl).faithful rfl ?_
  simp only [Typed.ofMessage]
  simp [typed_self hr, allTyped_self hp]

/-- As an alternative of an application policy. -/
theorem ApplicationPolicy.faithful_signaturePolicy {depth : Nat} {p : SignaturePolicyEnvelope} (hp : Faithful depth p) :
    Faithful (depth + 1) (ApplicationPolicy.signaturePolicy p) := by
  obtain ⟨hf, hn⟩ : (Field.message 1 (Typed.toMessage p)).Fits (· < ·) (.type .applicationPolicy) ∧
      (Field.message 1 (Typed.toMessage p)).nesting ≤ depth + 1 := fits_of_faithful hp rfl rfl nofun
  refine (Segment.field hf hn).upTo.faithful rfl ?_
  have hread : typed? SignaturePolicyEnvelope (Typed.toMessage (ApplicationPolicy.signaturePolicy p)) 1 = some p :=
    congrArg some hp.ofMessage_toMessage
  simp only [Typed.ofMessage, hread]

/-! ## Requests for blocks -/

theorem SeekPosition.faithful (p : SeekPosition) : Faithful 1 p := by
  have empty (tag : Nat) {t : MessageType} {group : List Nat}
      (hs : (Shape.type .seekPosition).field? tag = some ⟨tag, .choice group, .message (.type t)⟩) :
      (Field.message tag []).Fits (· < ·) (.type .seekPosition) :=
    Field.fits_message.2 ⟨_, _, hs, rfl, Fits.nil, nofun⟩
  cases p with
  | unset => exact ⟨Fits.nil, Nat.zero_le _, rfl⟩
  | newest => exact (Segment.field (empty 1 rfl) (by decide)).upTo.faithful rfl rfl
  | oldest => exact (Segment.field (empty 2 rfl) (by decide)).upTo.faithful rfl rfl
  | nextCommit => exact (Segment.field (empty 4 rfl) (by decide)).upTo.faithful rfl rfl
  | specified n =>
    have hn : UpTo (ofUInt64 1 n) (.type .seekSpecified) 0 1 := (Segment.scalar rfl).upTo
    have hf : (Field.message 3 (ofUInt64 1 n)).Fits (· < ·) (.type .seekPosition) :=
      Field.fits_message.2 ⟨_, _, rfl, rfl, hn.canonical, nofun⟩
    have hd := hn.nesting
    simp only [Message.nesting] at hd
    refine (Segment.field hf (by simp only [Field.nesting]; omega)).upTo.faithful rfl ?_
    simp only [Typed.ofMessage, Typed.toMessage]
    simp [ofUInt64]

theorem SeekInfo.faithful (s : SeekInfo) : Faithful 2 s := by
  have hp : ∀ x : Option SeekPosition, ∀ y, x = some y → Faithful 1 y := fun _ y _ => y.faithful
  refine ((Segment.child rfl (hp s.start)).upTo.append (.child rfl (hp s.stop)) rfl
    |>.append (.scalar rfl) rfl).faithful rfl ?_
  simp only [Typed.ofMessage]
  simp [typed_self (hp s.start), typed_self (hp s.stop)]

/-! ## Calls of chaincodes -/

theorem ChaincodeId.faithful (c : ChaincodeId) : Faithful 0 c :=
  ((Segment.scalar rfl).upTo.append (.scalar rfl) rfl |>.append (.scalar rfl) rfl).faithful rfl
    (by simp [Typed.ofMessage])

theorem ChaincodeInput.faithful {i : ChaincodeInput} (hd : i.decorations.Pairwise fun a b => a.1 < b.1) :
    Faithful 1 i :=
  (Segment.allBytes rfl |>.upTo.append (.bytesMap rfl hd) rfl |>.append (.scalar rfl) rfl).faithful rfl
    (by simp [Typed.ofMessage, entries, Function.comp_def])

theorem ChaincodeSpec.faithful {s : ChaincodeSpec}
    (hd : ∀ i, s.input = some i → i.decorations.Pairwise fun a b => a.1 < b.1) : Faithful 2 s := by
  have hc : ∀ y, s.chaincodeId = some y → Faithful 1 y := fun y _ => y.faithful.mono (by decide)
  have hi : ∀ y, s.input = some y → Faithful 1 y := fun y hy => ChaincodeInput.faithful (hd y hy)
  refine ((Segment.scalar rfl).upTo.append (.child rfl hc) rfl |>.append (.child rfl hi) rfl
    |>.append (.scalar rfl) rfl).faithful rfl ?_
  simp only [Typed.ofMessage]
  simp [typed_self hc, typed_self hi]

theorem ChaincodeInvocationSpec.faithful {s : ChaincodeInvocationSpec}
    (hd : ∀ c i, s.spec = some c → c.input = some i → i.decorations.Pairwise fun a b => a.1 < b.1) :
    Faithful 3 s := by
  have hc : ∀ y, s.spec = some y → Faithful 2 y := fun y hy => ChaincodeSpec.faithful (hd y · hy)
  refine (Segment.child rfl hc).upTo.faithful rfl ?_
  simp only [Typed.ofMessage]
  simp [typed_self hc]

theorem ChaincodeDeploymentSpec.faithful {s : ChaincodeDeploymentSpec}
    (hd : ∀ c i, s.spec = some c → c.input = some i → i.decorations.Pairwise fun a b => a.1 < b.1) :
    Faithful 3 s := by
  have hc : ∀ y, s.spec = some y → Faithful 2 y := fun y hy => ChaincodeSpec.faithful (hd y · hy)
  refine ((Segment.child rfl hc).upTo.append (.scalar rfl) rfl).faithful rfl ?_
  simp only [Typed.ofMessage]
  simp [typed_self hc]

theorem ChaincodeHeaderExtension.faithful (e : ChaincodeHeaderExtension) : Faithful 1 e := by
  have hc : ∀ y, e.chaincodeId = some y → Faithful 0 y := fun y _ => y.faithful
  refine (Segment.child rfl hc).upTo.faithful rfl ?_
  simp only [Typed.ofMessage]
  simp [typed_self hc]

theorem ChaincodeProposalPayload.faithful {p : ChaincodeProposalPayload}
    (hm : p.transientMap.Pairwise fun a b => a.1 < b.1) : Faithful 1 p :=
  ((Segment.scalar rfl).upTo.append (.bytesMap rfl hm) rfl).faithful rfl
    (by simp [Typed.ofMessage, entries, Function.comp_def])

def keyLe (a b : String × Bytes) : Bool := a.1 ≤ b.1

/-- A map by rising key. -/
def byKey (es : List (String × Bytes)) : List (String × Bytes) := es.mergeSort keyLe

theorem byKey_perm (es : List (String × Bytes)) : (byKey es).Perm es := List.mergeSort_perm es _

theorem pairwise_byKey {es : List (String × Bytes)} (h : (es.map Prod.fst).Nodup) :
    (byKey es).Pairwise fun a b => a.1 < b.1 := by
  have htrans (a b c : String × Bytes) (hab : keyLe a b) (hbc : keyLe b c) : keyLe a c :=
    decide_eq_true (String.le_trans (of_decide_eq_true hab) (of_decide_eq_true hbc))
  have htotal (a b : String × Bytes) : (keyLe a b || keyLe b a) = true := by
    simpa [keyLe] using String.le_total a.1 b.1
  have hle : (byKey es).Pairwise fun a b => keyLe a b = true := List.pairwise_mergeSort htrans htotal es
  have hne : (byKey es).Pairwise fun a b => a.1 ≠ b.1 :=
    List.pairwise_map.1 (((byKey_perm es).map Prod.fst).nodup_iff.2 h)
  refine (hle.and hne).imp fun {a b} hab => String.not_le.1 fun hba => ?_
  exact hab.2 (String.le_antisymm (of_decide_eq_true hab.1) hba)

/-- The transient map is read with all its entries, in whatever order they were written. -/
theorem decode?_encode_proposalPayload {p : ChaincodeProposalPayload} (h : (p.transientMap.map Prod.fst).Nodup)
    (hs : Wire.size p < 2 ^ 64) :
    Wire.decode? ChaincodeProposalPayload (Wire.encode p) = some { p with transientMap := byKey p.transientMap } := by
  let sorted : ChaincodeProposalPayload := { p with transientMap := byKey p.transientMap }
  have hfaithful : Faithful 1 sorted := ChaincodeProposalPayload.faithful (pairwise_byKey h)
  have hmap : (ofBytesMap 2 (byKey p.transientMap)).Perm (ofBytesMap 2 p.transientMap) :=
    ((byKey_perm p.transientMap).map _).map _
  have htag : ∀ f ∈ ofBytesMap 2 (byKey p.transientMap), f.tag = 2 := by
    intro f hf
    obtain ⟨_, -, rfl⟩ := List.mem_map.1 hf
    rfl
  have hfield : (Shape.type .chaincodeProposalPayload).field? 2 = some (.scalarMap 2 .bytes) := rfl
  have hr : Rearranged (.type .chaincodeProposalPayload) (Typed.toMessage sorted) (Typed.toMessage p) :=
    .append_left (.of_perm hfield rfl hmap htag) (ofBytes 1 p.input)
  have hvalue : (Typed.toMessage sorted).IsValue .chaincodeProposalPayload :=
    ⟨hfaithful.canonical, Nat.le_trans hfaithful.nesting (by decide), hr.size_eq ▸ hs⟩
  have hread : Message.decode? .chaincodeProposalPayload (Wire.encode p) = some (Typed.toMessage sorted) :=
    hvalue.decode?_encode hr
  rw [Wire.decode?, show Typed.type ChaincodeProposalPayload = .chaincodeProposalPayload from rfl, hread,
    Option.map_some, hfaithful.ofMessage_toMessage]

/-! ## Proposals -/

theorem Proposal.faithful (p : Proposal) : Faithful 0 p :=
  ((Segment.scalar rfl).upTo.append (.scalar rfl) rfl |>.append (.scalar rfl) rfl).faithful rfl
    (by simp [Typed.ofMessage])

/-! ## Chaincode definitions -/

namespace CommitChaincodeDefinitionArgs

/-- The fields of a definition, whatever message they stand in. -/
theorem upTo_toMessage (a : CommitChaincodeDefinitionArgs) {s : Shape} {depth : Nat}
    (hs : ∀ spec ∈ MessageType.definitionFields, s.field? spec.tag = some spec) : UpTo a.toMessage s depth 8 := by
  simp only [MessageType.definitionFields, List.forall_mem_cons, List.not_mem_nil, false_implies, implies_true,
    and_true] at hs
  obtain ⟨h1, h2, h3, h4, h5, h6, h8⟩ := hs
  have follows {last : Nat} {spec : FieldSpec} (h : s.field? spec.tag = some spec) (ho : spec.occurrence = .single)
      (hlt : last < spec.tag) : s.mayFollow last spec.tag = true := by
    obtain ⟨tag, occurrence, content⟩ := spec
    subst ho
    simp [Shape.mayFollow, h, hlt]
  exact (Segment.scalar h1).upTo.append (.scalar h2) (follows h2 rfl (by decide))
    |>.append (.scalar h3) (follows h3 rfl (by decide)) |>.append (.scalar h4) (follows h4 rfl (by decide))
    |>.append (.scalar h5) (follows h5 rfl (by decide)) |>.append (.scalar h6) (follows h6 rfl (by decide))
    |>.append (.scalar h8) (follows h8 rfl (by decide))

theorem ofMessage_toMessage (a : CommitChaincodeDefinitionArgs) : ofMessage a.toMessage = a := by
  simp [ofMessage, toMessage]

theorem faithful (a : CommitChaincodeDefinitionArgs) : Faithful 0 a :=
  (a.upTo_toMessage (by decide)).faithful rfl a.ofMessage_toMessage

end CommitChaincodeDefinitionArgs

theorem CheckCommitReadinessArgs.faithful (a : CheckCommitReadinessArgs) : Faithful 0 a :=
  (a.definition.upTo_toMessage (by decide)).faithful rfl
    (congrArg CheckCommitReadinessArgs.mk a.definition.ofMessage_toMessage)

theorem ChaincodeSource.faithful (s : ChaincodeSource) : Faithful 1 s := by
  cases s with
  | unset => exact ⟨Fits.nil, Nat.zero_le _, rfl⟩
  | unavailable =>
    have hf : (Field.message 1 []).Fits (· < ·) (.type .chaincodeSource) :=
      Field.fits_message.2 ⟨_, _, rfl, rfl, Fits.nil, nofun⟩
    exact (Segment.field hf (by decide)).upTo.faithful rfl rfl
  | localPackage id =>
    have hid : UpTo (ofText 1 id) (.type .chaincodeLocal) 0 1 := (Segment.scalar rfl).upTo
    have hf : (Field.message 2 (ofText 1 id)).Fits (· < ·) (.type .chaincodeSource) :=
      Field.fits_message.2 ⟨_, _, rfl, rfl, hid.canonical, nofun⟩
    have hd := hid.nesting
    simp only [Message.nesting] at hd
    refine (Segment.field hf (by simp only [Field.nesting]; omega)).upTo.faithful rfl ?_
    simp only [Typed.ofMessage, Typed.toMessage]
    simp [ofText]

theorem ApproveChaincodeDefinitionArgs.faithful (a : ApproveChaincodeDefinitionArgs) : Faithful 2 a := by
  have hs : ∀ y, a.source = some y → Faithful 1 y := fun y _ => y.faithful
  refine ((a.definition.upTo_toMessage (by decide)).append (.child rfl hs) rfl).faithful rfl ?_
  simp only [Typed.ofMessage, CommitChaincodeDefinitionArgs.ofMessage, CommitChaincodeDefinitionArgs.toMessage]
  simp [typed_self hs]

/-! ## Transactions -/

theorem Endorsement.faithful (e : Endorsement) : Faithful 0 e :=
  ((Segment.scalar rfl).upTo.append (.scalar rfl) rfl).faithful rfl (by simp [Typed.ofMessage])

theorem TransactionAction.faithful (a : TransactionAction) : Faithful 0 a :=
  ((Segment.scalar rfl).upTo.append (.scalar rfl) rfl).faithful rfl (by simp [Typed.ofMessage])

theorem Transaction.faithful (t : Transaction) : Faithful 1 t := by
  have hc : ∀ y ∈ t.actions, Faithful 0 y := fun y _ => y.faithful
  refine (Segment.children rfl hc).upTo.faithful rfl ?_
  simp only [Typed.ofMessage]
  simp [allTyped_self hc]

theorem ChaincodeEndorsedAction.faithful (a : ChaincodeEndorsedAction) : Faithful 1 a := by
  have hc : ∀ y ∈ a.endorsements, Faithful 0 y := fun y _ => y.faithful
  refine ((Segment.scalar rfl).upTo.append (.children rfl hc) rfl).faithful rfl ?_
  simp only [Typed.ofMessage]
  simp [allTyped_self hc]

theorem ChaincodeActionPayload.faithful (p : ChaincodeActionPayload) : Faithful 2 p := by
  have hc : ∀ y, p.action = some y → Faithful 1 y := fun y _ => y.faithful
  refine ((Segment.scalar rfl).upTo.append (.child rfl hc) rfl).faithful rfl ?_
  simp only [Typed.ofMessage]
  simp [typed_self hc]

end LedgerClient.Protocol
