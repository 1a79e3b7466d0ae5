/-
What is known of every proposal, whatever it calls.

All proposals are made in one way (`Signer.Proposed`), so that the envelope of
a transaction names the transaction that was proposed.
-/
import LedgerClient.Proofs.Envelope
import LedgerClient.Proofs.Proposal.Content
import LedgerClient.Proofs.Transaction

namespace LedgerClient

open Protocol

/-- The channel header in an envelope names a transaction. -/
def Protocol.Envelope.HasTxId (e : Envelope) (txId : String) : Prop :=
  ∃ (p : Payload) (h : Header) (ch : ChannelHeader),
    e.payload = Wire.encode p ∧ p.header = some h ∧ h.channelHeader = Wire.encode ch ∧ ch.txId = txId

/-- It is read there. -/
theorem Protocol.Envelope.HasTxId.decode {e : Envelope} {txId : String} (h : e.HasTxId txId)
    (hs : e.payload.length < 2 ^ 64) :
    ∃ p h ch, Wire.decode? Payload e.payload = some p ∧ p.header = some h ∧
      Wire.decode? ChannelHeader h.channelHeader = some ch ∧ ch.txId = txId := by
  obtain ⟨p, h, ch, hp, hh, hc, rfl⟩ := h
  have hl : Block.Entry.Layered ⟨e, p, h, ch⟩ := ⟨hp, hh, hc⟩
  rw [hp, Wire.length_encode] at hs
  exact ⟨p, h, ch, hl.decode_payload hs, hh, hl.decode_channelHeader hs, rfl⟩

/-- A proposal of a signer: whatever it calls. -/
def Signer.Proposed (s : Signer) (request : SignedRequest) : Prop :=
  ∃ stamp channelId id spec transientMap, request = s.propose stamp channelId id spec transientMap

theorem Purpose.proposed {s : Signer} {stamp : Stamp} {request : SignedRequest} (purpose : Purpose)
    (h : purpose.propose s stamp = .ok request) : s.Proposed request := by
  obtain ⟨c, -, rfl⟩ := exists_asks_of_propose h
  exact ⟨stamp, _, _, _, _, rfl⟩

theorem Signer.Proposed.hasTxId {s : Signer} {request : SignedRequest} (h : s.Proposed request)
    (s' : Signer) (payload : Bytes) (endorsements : List Endorsement) :
    (s'.envelope request payload endorsements).HasTxId request.txId.id := by
  obtain ⟨stamp, channelId, id, spec, transientMap, rfl⟩ := h
  exact ⟨_, _, _, rfl, rfl, rfl, rfl⟩

end LedgerClient
