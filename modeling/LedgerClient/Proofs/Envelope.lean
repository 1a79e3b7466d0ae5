/-
Envelopes and the layers in them.

Who makes an envelope encodes it from the inside out, so that each layer stands
encoded in the one around it (`Block.Entry.Layered`); who gets it decodes from
the outside in (`Block.Entry.Open`). As long as the envelope has a length, the
layers that are read are those that were written (`Layered.opened`).
-/
import LedgerClient.Block.Entry
import LedgerClient.Signing
import LedgerClient.Proofs.Ecdsa
import LedgerClient.Proofs.Except
import LedgerClient.Proofs.Protocol

namespace LedgerClient

open Protocol

/-- Signing adds little to a payload. -/
theorem Signer.size_signPayload_le (s : Signer) (p : Payload) : Wire.size (s.signPayload p) ≤ Wire.size p + 112 := by
  have hs := s.identity.key.length_sign_le (Wire.encode p)
  have hp := Wire.length_encode (x := p)
  have h1 := Wire.Message.size_ofBytes_le 1 (Wire.encode p)
  have h2 := Wire.Message.size_ofBytes_le 2 (s.sign (Wire.encode p))
  simp only [Wire.size, Signer.signPayload, Signer.sign, Wire.Typed.toMessage, Wire.Message.size_append] at *
  omega

namespace Block.Entry

/-- The layers of an encoded envelope, which are those of an entry in a block. -/
structure Open (l : Entry) (bytes : Bytes) : Prop where
  envelope : Wire.decode? Envelope bytes = some l.envelope
  payload : Wire.decode? Payload l.envelope.payload = some l.payload
  header : l.payload.header = some l.header
  channelHeader : Wire.decode? ChannelHeader l.header.channelHeader = some l.channelHeader

theorem ofBytes?_eq_ok_iff {l : Entry} {bytes : Bytes} : ofBytes? bytes = .ok l ↔ l.Open bytes := by
  simp only [ofBytes?, bind_eq_ok_iff, decodeAs_eq_ok_iff, require_eq_ok_iff]
  constructor
  · rintro ⟨envelope, he, payload, hp, header, hh, channelHeader, hc, ⟨⟩⟩
    exact ⟨he, hp, hh, hc⟩
  · rintro ⟨he, hp, hh, hc⟩
    exact ⟨_, he, _, hp, _, hh, _, hc, rfl⟩

theorem toOption_ofBytes?_eq_some_iff {l : Entry} {bytes : Bytes} :
    (ofBytes? bytes).toOption = some l ↔ l.Open bytes :=
  toOption_eq_some_iff.trans ofBytes?_eq_ok_iff

/-- Each layer is in the one around it. -/
structure Layered (l : Entry) : Prop where
  payload : l.envelope.payload = Wire.encode l.payload
  header : l.payload.header = some l.header
  channelHeader : l.header.channelHeader = Wire.encode l.channelHeader

namespace Layered

variable {l : Entry}

theorem size_payload_le (h : l.Layered) : Wire.size l.payload ≤ Wire.size l.envelope :=
  Wire.size_le_of_bytes 1 (by simp [Wire.Typed.toMessage, h.payload])

theorem size_header_le (h : l.Layered) : Wire.size l.header ≤ Wire.size l.payload :=
  Wire.size_le_of_mem 1 (by simp [Wire.Typed.toMessage, h.header, Wire.Message.ofChild?])

theorem decode_payload (h : l.Layered) (hs : Wire.size l.payload < 2 ^ 64) :
    Wire.decode? Payload l.envelope.payload = some l.payload := by
  rw [h.payload]
  exact l.payload.faithful.decode?_encode (by decide) hs

theorem decode_channelHeader (h : l.Layered) (hs : Wire.size l.payload < 2 ^ 64) :
    Wire.decode? ChannelHeader l.header.channelHeader = some l.channelHeader := by
  rw [h.channelHeader]
  exact (l.channelHeader.faithful.decode?_inside (by decide) l.header 1
    (by simp [Wire.Typed.toMessage, h.channelHeader]) (Nat.lt_of_le_of_lt h.size_header_le hs)).1

theorem decode_signatureHeader {signatureHeader : SignatureHeader} (h : l.Layered) (hs : Wire.size l.envelope < 2 ^ 64)
    (hheader : l.header.signatureHeader = Wire.encode signatureHeader) :
    Wire.decode? SignatureHeader l.header.signatureHeader = some signatureHeader := by
  have hhs : Wire.size l.header < 2 ^ 64 :=
    Nat.lt_of_le_of_lt (Nat.le_trans h.size_header_le h.size_payload_le) hs
  rw [hheader]
  exact (signatureHeader.faithful.decode?_inside (by decide) l.header 2
    (by simp [Wire.Typed.toMessage, hheader]) hhs).1

/-- What the innermost layer is about. -/
theorem decode_data {α : Type} [Wire.Typed α] {x : α} {depth : Nat} (h : l.Layered)
    (hs : Wire.size l.envelope < 2 ^ 64) (hx : Wire.Faithful depth x) (hd : depth ≤ Wire.Message.nestingLimit)
    (hdata : l.payload.data = Wire.encode x) : Wire.decode? α l.payload.data = some x := by
  rw [hdata]
  exact (hx.decode?_inside hd l.payload 2 (by simp [Wire.Typed.toMessage, hdata])
    (Nat.lt_of_le_of_lt h.size_payload_le hs)).1

/-- The layers that are read are those that were written. -/
theorem opened (h : l.Layered) (hs : Wire.size l.envelope < 2 ^ 64) : l.Open (Wire.encode l.envelope) where
  envelope := l.envelope.faithful.decode?_encode (by decide) hs
  payload := h.decode_payload (Nat.lt_of_le_of_lt h.size_payload_le hs)
  header := h.header
  channelHeader := h.decode_channelHeader (Nat.lt_of_le_of_lt h.size_payload_le hs)

end Layered

end Block.Entry

end LedgerClient
