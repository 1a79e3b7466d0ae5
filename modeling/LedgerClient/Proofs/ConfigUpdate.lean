/-
Updates of a configuration collect signatures, and what was signed stays.

An envelope carries an update behind four layers (`Block.Entry.Carry`), and is
refused for the first of them that cannot be read
(`configUpdateOf_eq_error_iff`). What a signer puts around an update is read
back (`Signer.carry_configEntry`), so one more round leaves the update's bytes
and its signatures as they are and adds one signature at the end
(`IsSignedBy.concat`), and any number of rounds adds as many, in the order of
the signers (`exists_signInTurn_eq_ok`).
-/
import Mathlib.Algebra.GroupWithZero.Nat
import LedgerClient.ConfigUpdate
import LedgerClient.Proofs.Envelope
import LedgerClient.Proofs.Proposal.Content
import LedgerClient.Proofs.Transaction

namespace LedgerClient

open Protocol

/-! ## What an envelope carries -/

/-- An encoded envelope with an update of a configuration in it. -/
structure Block.Entry.Carry (l : Block.Entry) (bytes : Bytes) (update : ConfigUpdateEnvelope) : Prop
    extends l.Open bytes where
  type : l.channelHeader.type = HeaderType.configUpdate.code
  update : Wire.decode? ConfigUpdateEnvelope l.payload.data = some update

def Carries (bytes : Bytes) (update : ConfigUpdateEnvelope) : Prop := ∃ l : Block.Entry, l.Carry bytes update

/-- Why an envelope is refused: for the first thing in it that cannot be read or is not what it should be. -/
inductive Refused (bytes : Bytes) : DecodeError → Prop
  | envelope (h : Wire.decode? Envelope bytes = none) : Refused bytes (.malformed "envelope")
  | payload {e : Envelope} (he : Wire.decode? Envelope bytes = some e)
      (h : Wire.decode? Payload e.payload = none) : Refused bytes (.malformed "payload")
  | header {e : Envelope} {p : Payload} (he : Wire.decode? Envelope bytes = some e)
      (hp : Wire.decode? Payload e.payload = some p) (h : p.header = none) :
      Refused bytes (.missing "payload header")
  | channelHeader {e : Envelope} {p : Payload} {header : Header} (he : Wire.decode? Envelope bytes = some e)
      (hp : Wire.decode? Payload e.payload = some p) (hh : p.header = some header)
      (h : Wire.decode? ChannelHeader header.channelHeader = none) : Refused bytes (.malformed "channel header")
  | type {l : Block.Entry} (hl : l.Open bytes) (h : l.channelHeader.type ≠ HeaderType.configUpdate.code) :
      Refused bytes (.unexpectedHeaderType l.channelHeader.type .configUpdate)
  | update {l : Block.Entry} (hl : l.Open bytes) (ht : l.channelHeader.type = HeaderType.configUpdate.code)
      (h : Wire.decode? ConfigUpdateEnvelope l.payload.data = none) :
      Refused bytes (.malformed "config update envelope")

variable {bytes : Bytes} {update : ConfigUpdateEnvelope} {error : DecodeError}

theorem configUpdateOf_eq_ok_iff : configUpdateOf bytes = .ok update ↔ Carries bytes update := by
  simp only [configUpdateOf, bind_eq_ok_iff, decodeAs_eq_ok_iff, require_eq_ok_iff]
  constructor
  · rintro ⟨e, he, p, hp, h, hh, ch, hc, hupdate⟩
    split at hupdate
    next => cases hupdate
    next ht =>
      exact ⟨⟨e, p, h, ch⟩, ⟨he, hp, hh, hc⟩, Decidable.of_not_not ht, decodeAs_eq_ok_iff.1 hupdate⟩
  · rintro ⟨⟨e, p, h, ch⟩, ⟨he, hp, hh, hc⟩, ht, hu⟩
    refine ⟨e, he, p, hp, h, hh, ch, hc, ?_⟩
    rw [if_neg fun hn => hn ht]
    exact decodeAs_eq_ok_iff.2 hu

/-- The layers are read from the outside in, and the type before the update. -/
theorem configUpdateOf_eq_error_iff : configUpdateOf bytes = .error error ↔ Refused bytes error := by
  simp only [configUpdateOf, bind_eq_error_iff, decodeAs_eq_ok_iff, require_eq_ok_iff, decodeAs_eq_error_iff,
    require_eq_error_iff]
  constructor
  · rintro (⟨h, rfl⟩ | ⟨e, he, ⟨h, rfl⟩ | ⟨p, hp, ⟨h, rfl⟩ | ⟨header, hh, ⟨h, rfl⟩ | ⟨ch, hc, h⟩⟩⟩⟩)
    · exact .envelope h
    · exact .payload he h
    · exact .header he hp h
    · exact .channelHeader he hp hh h
    · have hl : Block.Entry.Open ⟨e, p, header, ch⟩ bytes := ⟨he, hp, hh, hc⟩
      split at h
      next ht =>
        cases h
        exact .type hl ht
      next ht =>
        obtain ⟨hu, rfl⟩ := decodeAs_eq_error_iff.1 h
        exact .update hl (Decidable.of_not_not ht) hu
  · rintro (h | ⟨he, h⟩ | ⟨he, hp, h⟩ | ⟨he, hp, hh, h⟩ | ⟨hl, h⟩ | ⟨hl, ht, h⟩)
    · exact .inl ⟨h, rfl⟩
    · exact .inr ⟨_, he, .inl ⟨h, rfl⟩⟩
    · exact .inr ⟨_, he, .inr ⟨_, hp, .inl ⟨h, rfl⟩⟩⟩
    · exact .inr ⟨_, he, .inr ⟨_, hp, .inr ⟨_, hh, .inl ⟨h, rfl⟩⟩⟩⟩
    · refine .inr ⟨_, hl.envelope, .inr ⟨_, hl.payload, .inr ⟨_, hl.header, .inr ⟨_, hl.channelHeader, ?_⟩⟩⟩⟩
      rw [if_pos h]
      rfl
    · refine .inr ⟨_, hl.envelope, .inr ⟨_, hl.payload, .inr ⟨_, hl.header, .inr ⟨_, hl.channelHeader, ?_⟩⟩⟩⟩
      rw [if_neg fun hn => hn ht]
      exact decodeAs_eq_error_iff.2 ⟨h, rfl⟩

/-! ## One round -/

/-- The update with these signatures after those that it has. -/
def Protocol.ConfigUpdateEnvelope.append (update : ConfigUpdateEnvelope) (added : List ConfigSignature) :
    ConfigUpdateEnvelope :=
  { update with signatures := update.signatures ++ added }

theorem Protocol.ConfigUpdateEnvelope.append_append (update : ConfigUpdateEnvelope) (added added' : List ConfigSignature) :
    (update.append added).append added' = update.append (added ++ added') := by
  simp [ConfigUpdateEnvelope.append]

/-- A signer's signature over an update: it names the signer and the nonce, and signs both with the update. -/
structure IsConfigSignature (s : Signer) (stamp : Stamp) (update : Bytes) (signature : ConfigSignature) : Prop where
  header : Wire.decode? SignatureHeader signature.signatureHeader = some ⟨s.creator, stamp.nonce⟩
  signature : signature.signature = s.sign (signature.signatureHeader ++ update)

/-- An envelope around an update, addressed to a channel: its signature header is that of `signature`, and the whole
payload is signed. -/
structure Block.Entry.Wrap (l : Block.Entry) (s : LedgerClient.Signer) (channelId : String)
    (signature : ConfigSignature) : Prop where
  type : l.channelHeader.type = HeaderType.configUpdate.code
  channelId : l.channelHeader.channelId = channelId
  txId : l.channelHeader.txId = ""
  signatureHeader : l.header.signatureHeader = signature.signatureHeader
  signature : l.envelope.signature = s.sign l.envelope.payload

section Round

variable (s : Signer) (stamp : Stamp) (channelId : String) (update : ConfigUpdateEnvelope)

/-- The layers that a signer puts around the update with its own signature. -/
def Signer.configEntry : Block.Entry :=
  let signed := update.append [s.configSignature stamp update.configUpdate]
  let channelHeader : ChannelHeader :=
    { type := HeaderType.configUpdate.code, timestamp := some stamp.time, channelId }
  let header : Header :=
    { channelHeader := Wire.encode channelHeader, signatureHeader := Wire.encode (s.signatureHeader stamp) }
  let payload : Payload := { header := some header, data := Wire.encode signed }
  { envelope := s.signPayload payload, payload, header, channelHeader }

theorem Signer.envelope_configEntry :
    (s.configEntry stamp channelId update).envelope = s.signConfigUpdate stamp channelId update := rfl

/-- How many bytes a round may need besides those of the update. -/
def Signer.roundSize : Nat :=
  2 * Wire.size (s.signatureHeader stamp) + (Utf8.encode channelId).length + 600

theorem Signer.size_append_le : Wire.size (update.append [s.configSignature stamp update.configUpdate]) ≤
    Wire.size update + Wire.size (s.signatureHeader stamp) + 132 := by
  have hsign := s.identity.key.length_sign_le (Wire.encode (s.signatureHeader stamp) ++ update.configUpdate)
  have hsignature := (s.configSignature stamp update.configUpdate).size_le
  have hlist := Wire.Message.size_ofAllTyped_concat_le 2 update.signatures
    (s.configSignature stamp update.configUpdate)
  simp only [Signer.configSignature, Signer.sign, Wire.length_encode] at hsignature
  simp only [Wire.size, ConfigUpdateEnvelope.append, Signer.configSignature, Signer.sign, Wire.Typed.toMessage,
    Wire.Message.size_append] at *
  omega

theorem Signer.size_signConfigUpdate_le : Wire.size (s.signConfigUpdate stamp channelId update) ≤
    Wire.size (update.append [s.configSignature stamp update.configUpdate]) +
      Wire.size (s.signatureHeader stamp) + (Utf8.encode channelId).length + 392 := by
  rw [← s.envelope_configEntry]
  let l := s.configEntry stamp channelId update
  have hchannel := l.channelHeader.size_le
  have hheader := l.header.size_le
  have hpayload := l.payload.size_le (h := l.header) rfl
  have henvelope := s.size_signPayload_le l.payload
  have hempty : (Utf8.encode "").length = 0 := rfl
  simp only [l, Signer.configEntry, Wire.length_encode, List.length_nil, hempty] at *
  exact Nat.le_trans henvelope (by omega)

/-- What a signer puts around an update is read back. -/
theorem Signer.carry_configEntry (hsize : Wire.size (s.signConfigUpdate stamp channelId update) < 2 ^ 64) :
    (s.configEntry stamp channelId update).Carry (Wire.encode (s.signConfigUpdate stamp channelId update))
        (update.append [s.configSignature stamp update.configUpdate]) ∧
      Wire.decode? SignatureHeader (Wire.encode (s.signatureHeader stamp)) = some (s.signatureHeader stamp) := by
  rw [← s.envelope_configEntry] at hsize ⊢
  let l := s.configEntry stamp channelId update
  let signed := update.append [s.configSignature stamp update.configUpdate]
  have hl : l.Layered := ⟨rfl, rfl, rfl⟩
  exact ⟨⟨hl.opened hsize, rfl, hl.decode_data hsize signed.faithful (by decide) rfl⟩,
    hl.decode_signatureHeader hsize rfl⟩

theorem Signer.wrap_configEntry : (s.configEntry stamp channelId update).Wrap s channelId
    (s.configSignature stamp update.configUpdate) where
  type := rfl
  channelId := rfl
  txId := rfl
  signatureHeader := rfl
  signature := by rw [Signer.configEntry, Signer.signPayload]

end Round

/-! ## Any number of rounds -/

section Rounds

variable {channelId : String} {rounds : List (Signer × Stamp)}

/-- An update that goes from signer to signer, each of whom signs what the one before has made of it. -/
def signInTurn (channelId : String) (rounds : List (Signer × Stamp)) (bytes : Bytes) : Except DecodeError Bytes :=
  rounds.foldlM (fun bytes round => Wire.encode <$> round.1.signEncodedConfigUpdate round.2 channelId bytes) bytes

/-- What the signers have made of an update: it has one signature more of each of them, in their order, and
is in an envelope by the last. -/
structure IsSignedBy (channelId : String) (rounds : List (Signer × Stamp)) (update : ConfigUpdateEnvelope)
    (result : Bytes) (l : Block.Entry) (added : List ConfigSignature) : Prop where
  carry : l.Carry result (update.append added)
  each : List.Forall₂ (fun round => IsConfigSignature round.1 round.2 update.configUpdate) rounds added
  last : ∀ round ∈ rounds.getLast?, ∀ signature ∈ added.getLast?, l.Wrap round.1 channelId signature

theorem signEncodedConfigUpdate_eq_ok (s : Signer) (stamp : Stamp) (h : Carries bytes update) :
    s.signEncodedConfigUpdate stamp channelId bytes = .ok (s.signConfigUpdate stamp channelId update) := by
  rw [Signer.signEncodedConfigUpdate, configUpdateOf_eq_ok_iff.2 h]
  rfl

/-- One more round on top of those before. -/
theorem IsSignedBy.concat {result : Bytes} {l : Block.Entry} {added : List ConfigSignature}
    (h : IsSignedBy channelId rounds update result l added) (s : Signer) (stamp : Stamp)
    (hsize : Wire.size (update.append added) + s.roundSize stamp channelId < 2 ^ 64) :
    ∃ envelope l' signature, s.signEncodedConfigUpdate stamp channelId result = .ok envelope ∧
      IsSignedBy channelId (rounds ++ [(s, stamp)]) update (Wire.encode envelope) l' (added ++ [signature]) ∧
      Wire.size (update.append (added ++ [signature])) ≤
        Wire.size (update.append added) + s.roundSize stamp channelId := by
  have hround : s.roundSize stamp channelId =
      2 * Wire.size (s.signatureHeader stamp) + (Utf8.encode channelId).length + 600 := rfl
  have hadd := s.size_append_le stamp (update.append added)
  have henvelope := s.size_signConfigUpdate_le stamp channelId (update.append added)
  obtain ⟨hcarry, hheader⟩ := s.carry_configEntry stamp channelId (update.append added) (by omega)
  have hupdate : (update.append added).configUpdate = update.configUpdate := rfl
  rw [ConfigUpdateEnvelope.append_append, hupdate] at hadd hcarry
  have hsignature : IsConfigSignature s stamp update.configUpdate (s.configSignature stamp update.configUpdate) :=
    ⟨hheader, by rw [Signer.configSignature]⟩
  refine ⟨_, _, s.configSignature stamp update.configUpdate, signEncodedConfigUpdate_eq_ok s stamp ⟨l, h.carry⟩,
    ⟨hcarry, ?_, ?_⟩, by omega⟩
  · exact List.rel_append h.each (.cons hsignature .nil)
  · simp only [List.getLast?_concat, Option.mem_some]
    rintro _ rfl _ rfl
    exact s.wrap_configEntry stamp channelId _

/-- By induction on the rounds from the first one on: no round makes the update too long for the next. -/
theorem exists_signInTurn_eq_ok (h : Carries bytes update) (hsize : Wire.size update +
      (rounds.map fun round => round.1.roundSize round.2 channelId).sum < 2 ^ 64) :
    ∃ result l added, signInTurn channelId rounds bytes = .ok result ∧
      IsSignedBy channelId rounds update result l added ∧ Wire.size (update.append added) ≤
        Wire.size update + (rounds.map fun round => round.1.roundSize round.2 channelId).sum := by
  induction rounds using List.reverseRecOn with
  | nil =>
    obtain ⟨l, hl⟩ := h
    have happend : update.append [] = update := by simp [ConfigUpdateEnvelope.append]
    refine ⟨bytes, l, [], rfl, ⟨?_, .nil, nofun⟩, ?_⟩ <;> rw [happend]
    · exact hl
    · exact Nat.le_add_right _ _
  | append_singleton rounds round ih =>
    simp only [List.map_append, List.map_cons, List.map_nil, List.sum_append, List.sum_singleton] at hsize ⊢
    obtain ⟨result, l, added, hresult, hsigned, hle⟩ := ih (by omega)
    obtain ⟨envelope, l', signature, henvelope, hsigned', hle'⟩ :=
      hsigned.concat round.1 round.2 (by omega)
    refine ⟨_, l', _, ?_, hsigned', by omega⟩
    rw [signInTurn] at hresult
    rw [signInTurn, List.foldlM_append, hresult]
    simp only [List.foldlM_cons, List.foldlM_nil, bind, Except.bind, henvelope]
    rfl

end Rounds

/-- An envelope is signed unless one of its layers cannot be read or has the wrong type. Signers who sign in
turn leave the update and the signatures before theirs as they are; each adds one, over the update with its own
header, and the last one's envelope is addressed to the channel and bears that header too. The sizes keep all
encodings within what a length in them can say. -/
theorem signatures_gather (bytes : Bytes) (channelId : String) :
    (∀ (s : Signer) stamp error, s.signEncodedConfigUpdate stamp channelId bytes = .error error ↔
      Refused bytes error) ∧
    (∀ (s : Signer) stamp, (∃ envelope, s.signEncodedConfigUpdate stamp channelId bytes = .ok envelope) ↔
      ∃ update, Carries bytes update) ∧
    ∀ update rounds, Carries bytes update →
      Wire.size update + (rounds.map fun round => round.1.roundSize round.2 channelId).sum < 2 ^ 64 →
      ∃ result l added, signInTurn channelId rounds bytes = .ok result ∧
        IsSignedBy channelId rounds update result l added := by
  refine ⟨fun s stamp error => ?_, fun s stamp => ?_, fun update rounds h hsize => ?_⟩
  · rw [← configUpdateOf_eq_error_iff, Signer.signEncodedConfigUpdate]
    exact bind_ok_eq_error_iff
  · simp only [← configUpdateOf_eq_ok_iff, Signer.signEncodedConfigUpdate]
    cases configUpdateOf bytes <;> simp [bind, Except.bind, pure, Except.pure]
  · obtain ⟨result, l, added, hresult, hsigned, -⟩ := exists_signInTurn_eq_ok h hsize
    exact ⟨result, l, added, hresult, hsigned⟩

/-! An update that has one signature already, signed by two organizations. -/

def sampleOrganization (mspId : String) : Signer :=
  { sampleClient with identity.mspId := mspId }

def sampleConfigUpdate : ConfigUpdateEnvelope := { configUpdate := [1, 2], signatures := [⟨[7], [8]⟩] }

def sampleConfigEntry : Block.Entry :=
  let channelHeader : ChannelHeader := { type := 2, channelId := "other", txId := "x" }
  let payload : Payload :=
    { header := some { channelHeader := Wire.encode channelHeader }, data := Wire.encode sampleConfigUpdate }
  { envelope := { payload := Wire.encode payload }, payload, header := { channelHeader := Wire.encode channelHeader }
    channelHeader }

theorem signatures_gather_two :
    ∃ result update first second, signInTurn "mychannel" [(sampleOrganization "Org1MSP", ⟨[1], {}⟩),
        (sampleOrganization "Org2MSP", ⟨[2], {}⟩)] (Wire.encode sampleConfigEntry.envelope) = .ok result ∧
      Carries result update ∧ update.configUpdate = [1, 2] ∧ update.signatures = [⟨[7], [8]⟩, first, second] ∧
      IsConfigSignature (sampleOrganization "Org1MSP") ⟨[1], {}⟩ [1, 2] first ∧
      IsConfigSignature (sampleOrganization "Org2MSP") ⟨[2], {}⟩ [1, 2] second := by
  have hcarries : Carries (Wire.encode sampleConfigEntry.envelope) sampleConfigUpdate :=
    ⟨sampleConfigEntry, ⟨by decide +kernel, by decide +kernel, rfl, by decide +kernel⟩, rfl, by decide +kernel⟩
  obtain ⟨result, l, added, hresult, hsigned⟩ := (signatures_gather _ "mychannel").2.2 _
    [(sampleOrganization "Org1MSP", ⟨[1], {}⟩), (sampleOrganization "Org2MSP", ⟨[2], {}⟩)] hcarries (by decide +kernel)
  obtain ⟨first, rest, hfirst, hrest, rfl⟩ := List.forall₂_cons_left_iff.1 hsigned.each
  obtain ⟨second, none, hsecond, hnone, rfl⟩ := List.forall₂_cons_left_iff.1 hrest
  obtain rfl := List.forall₂_nil_left_iff.1 hnone
  exact ⟨result, _, first, second, hresult, ⟨l, hsigned.carry⟩, rfl, rfl, hfirst, hsecond⟩

end LedgerClient
